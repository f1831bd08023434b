/-
The test whether a text goes on, and the reader. The test counts what is
open, and does not tell parentheses from braces; but it is right where it
matters. Of a program it says that it is complete, and of a text that is
rejected only because blocks are open it says that it goes on. So the
return key never goes on with a program. A text with nothing but open
blocks it submits in one case: if a comment is the first thing in it, for
then the text begins like a command, and the test is not asked
(`continuation_agrees`).

# How it is shown

What is closed too much is forgotten, so as much is open as the last
tokens leave open, however many of them are looked at
(`lt_openDepth_iff`). Every phrase of the grammar closes what it opens,
each where it belongs (`balanced_of_spells`), so a program leaves nothing
open. And if a block is the first thing that is reported as open, it is in
the text, with a body that is without a fault (`HoldsOpenBlock`); what the
block opens is then open at the end, whatever was before it. And if the
slash in front of a text opens no comment, it is a token that nothing
begins with, which is reported first (`first_of_stray`).
-/
import Mathlib
import Lox.Console.Key
import Lox.Proofs.Console.Inputs
import Lox.Proofs.Reading.Parentheses
import Lox.Proofs.Reading.Reported

namespace Lox

-- ============================================================ statements

/-- Whether tokens of this kind open or close something. -/
def TokenKind.brackets : TokenKind → Bool
  | leftParen | rightParen | leftBrace | rightBrace => true
  | _ => false

namespace Console

/-- How many parentheses and braces are opened. -/
def openings (ts : List Token) : Nat :=
  countKind .leftParen ts + countKind .leftBrace ts

/-- How many parentheses and braces are closed. -/
def closings (ts : List Token) : Nat :=
  countKind .rightParen ts + countKind .rightBrace ts

/-- What is open is as much behind these tokens as before. -/
def Balanced (ts : List Token) : Prop :=
  ∀ depth, ts.foldl openAfter depth = depth

-- ============================================================= one token

variable {t : Token} {ts ts' : List Token}

/-- A token opens something, closes something or does neither. -/
theorem opening_or_closing_or (t : Token) :
    (t.kind = .leftParen ∨ t.kind = .leftBrace) ∨
      (t.kind = .rightParen ∨ t.kind = .rightBrace) ∨
      t.kind.brackets = false := by
  cases t.kind <;> simp [TokenKind.brackets]

/-- An opening bracket is one more that is open, be it a parenthesis or a
brace. -/
theorem openAfter_opening (h : t.kind = .leftParen ∨ t.kind = .leftBrace)
    (depth : Nat) : openAfter depth t = depth + 1 := by
  rcases h with h | h <;> simp [openAfter, opens, h]

/-- A closing one is one less, or nothing where none is open: the count does
not go below zero. -/
theorem openAfter_closing (h : t.kind = .rightParen ∨ t.kind = .rightBrace)
    (depth : Nat) : openAfter depth t = depth - 1 := by
  rcases h with h | h <;> simp [openAfter, opens, closes, h]

/-- Any other token leaves the count as it is. -/
theorem openAfter_other (h : t.kind.brackets = false) (depth : Nat) :
    openAfter depth t = depth := by
  have hopens : opens t = false := by
    cases hkind : t.kind <;> simp_all [opens, TokenKind.brackets]
  have hcloses : closes t = false := by
    cases hkind : t.kind <;> simp_all [closes, TokenKind.brackets]
  simp [openAfter, hopens, hcloses]

/-- The openings and closings of the last tokens are counted apart, and an
opening bracket is one more of the former. -/
theorem counts_opening (h : t.kind = .leftParen ∨ t.kind = .leftBrace)
    (ts : List Token) : openings (ts ++ [t]) = openings ts + 1 ∧
      closings (ts ++ [t]) = closings ts := by
  rcases h with h | h <;>
    simp [openings, closings, countKind, h] <;> omega

/-- A closing bracket is one more of the latter. -/
theorem counts_closing (h : t.kind = .rightParen ∨ t.kind = .rightBrace)
    (ts : List Token) : openings (ts ++ [t]) = openings ts ∧
      closings (ts ++ [t]) = closings ts + 1 := by
  rcases h with h | h <;>
    simp [openings, closings, countKind, h] <;> omega

/-- Any other token counts for neither. -/
theorem counts_other (h : t.kind.brackets = false) (ts : List Token) :
    openings (ts ++ [t]) = openings ts ∧
      closings (ts ++ [t]) = closings ts := by
  have hnone (kind : TokenKind) (hkind : kind.brackets = true) :
      countKind kind [t] = 0 := by
    refine countKind_eq_zero (List.forall_mem_singleton.2 ?_)
    rintro rfl
    rw [h] at hkind
    cases hkind
  simp [openings, closings, hnone .leftParen rfl, hnone .rightParen rfl,
    hnone .leftBrace rfl, hnone .rightBrace rfl]

-- ========================================================= the last tokens

/-- The last tokens that leave something open are not none at all, so they
end with the last one. -/
theorem exists_last_concat {count : Nat} :
    (∃ last, last <:+ ts ++ [t] ∧ closings last + count < openings last) ↔
      ∃ last, last <:+ ts ∧
        closings (last ++ [t]) + count < openings (last ++ [t]) := by
  constructor
  · rintro ⟨last, hsuffix, hcount⟩
    rcases List.suffix_concat_iff.1 hsuffix with rfl | ⟨last, rfl, h⟩
    · simp [openings, countKind] at hcount
    · exact ⟨last, h, hcount⟩
  · rintro ⟨last, ⟨before, rfl⟩, hcount⟩
    exact ⟨last ++ [t], ⟨before, by simp⟩, hcount⟩

/-- More is open than so much exactly if the last tokens, some number of
them, leave more open than that. -/
theorem lt_openDepth_iff {count : Nat} : count < openDepth ts ↔
    ∃ last, last <:+ ts ∧ closings last + count < openings last := by
  induction ts using List.reverseRecOn generalizing count with
  | nil => simp [openDepth, List.suffix_nil, openings, countKind]
  | append_singleton ts t ih =>
    have hdepth : openDepth (ts ++ [t]) = openAfter (openDepth ts) t := by
      simp [openDepth]
    rw [hdepth, exists_last_concat]
    rcases opening_or_closing_or t with hkind | hkind | hkind
    · rw [openAfter_opening hkind]
      simp only [counts_opening hkind]
      cases count with
      | zero =>
        refine ⟨fun _ => ⟨[], List.nil_suffix, ?_⟩, fun _ => by omega⟩
        simp [openings, closings, countKind]
      | succ count =>
        rw [Nat.add_lt_add_iff_right, ih]
        simp only [← Nat.add_assoc, Nat.add_lt_add_iff_right]
    · rw [openAfter_closing hkind, Nat.lt_sub_iff_add_lt, ih]
      simp only [counts_closing hkind, Nat.add_assoc, Nat.add_comm 1]
    · rw [openAfter_other hkind, ih]
      simp only [counts_other hkind]

-- =============================================================== balance

/-- No tokens are balanced. -/
theorem Balanced.nil : Balanced [] := fun _ => rfl

/-- Balanced tokens behind balanced ones are balanced. -/
theorem Balanced.append (h : Balanced ts) (h' : Balanced ts') :
    Balanced (ts ++ ts') := fun depth => by
  rw [List.foldl_append, h, h']

/-- So they are behind a token that is no bracket. -/
theorem Balanced.cons (ht : t.kind.brackets = false) (h : Balanced ts) :
    Balanced (t :: ts) := fun depth => by
  rw [List.foldl_cons, openAfter_other ht, h]

/-- Such a token alone is balanced. -/
theorem Balanced.single (ht : t.kind.brackets = false) : Balanced [t] :=
  .cons ht .nil

/-- What is opened is closed by the next that closes something. -/
theorem Balanced.enclosed {opening closing : Token}
    (hopening : opening.kind = .leftParen ∨ opening.kind = .leftBrace)
    (h : Balanced ts)
    (hclosing : closing.kind = .rightParen ∨ closing.kind = .rightBrace)
    (h' : Balanced ts') :
    Balanced (opening :: (ts ++ closing :: ts')) := fun depth => by
  rw [List.foldl_cons, openAfter_opening hopening, List.foldl_append, h,
    List.foldl_cons, openAfter_closing hclosing, Nat.add_sub_cancel, h']

/-- A token of a known kind is a bracket if the kind is one. -/
theorem brackets_of_kind {kind : TokenKind} (h : t.kind = kind)
    (hkind : kind.brackets = false) : t.kind.brackets = false := by
  rw [h, hkind]

/-- A literal is no bracket. -/
theorem brackets_of_literal {value : Literal}
    (h : Literal.ofToken? t = some value) : t.kind.brackets = false := by
  unfold Literal.ofToken? at h
  split at h
  case h_6 => cases h
  all_goals
    rename_i hkind
    exact brackets_of_kind hkind rfl

/-- Nor is a sign in front of an operand. -/
theorem brackets_of_unary {kind : TokenKind} {op : UnaryOp}
    (h : UnaryOp.ofKind? kind = some op) : kind.brackets = false := by
  cases kind <;> first | rfl | cases h

/-- Nor is an operator between two. -/
theorem brackets_of_connective {level : Level} {kind : TokenKind}
    {op : Connective} (h : level.connective? kind = some op) :
    kind.brackets = false := by
  cases kind <;> first | rfl | (cases level <;> cases h)

/-- Every phrase of the grammar closes what it opens. -/
theorem balanced_of_spells {n n' : Nat} {phrase : Phrase}
    (h : Spells n ts phrase n') : Balanced ts := by
  induction h with
  | literal hvalue => exact .single (brackets_of_literal hvalue)
  | var ht | oneParam ht | noClause ht | noTest ht =>
    exact .single (brackets_of_kind ht rfl)
  | group ho _ hc ih => exact .enclosed (.inl ho) ih (.inl hc) .nil
  | call _ ho _ hc ih₁ ih₂ =>
    exact ih₁.append (.enclosed (.inl ho) ih₂ (.inl hc) .nil)
  | unary hop _ ih => exact .cons (brackets_of_unary hop) ih
  | join _ hop _ _ ih₁ ih₂ =>
    exact ih₁.append (.cons (brackets_of_connective hop) ih₂)
  | assign _ ht _ ih₁ ih₂ | moreArgs _ ht _ ih₁ ih₂ =>
    exact ih₁.append (.cons (brackets_of_kind ht rfl) ih₂)
  | noArgs | noParams | absent | nil => exact .nil
  | moreParams ht hcomma _ ih =>
    exact .cons (brackets_of_kind ht rfl)
      (.cons (brackets_of_kind hcomma rfl) ih)
  | varDecl hword ht hend =>
    exact .cons (brackets_of_kind hword rfl)
      (.cons (brackets_of_kind ht rfl) (.single (brackets_of_kind hend rfl)))
  | varInit hword ht hsign _ hend ih =>
    exact .cons (brackets_of_kind hword rfl)
      (.cons (brackets_of_kind ht rfl)
        (.cons (brackets_of_kind hsign rfl)
          (ih.append (.single (brackets_of_kind hend rfl)))))
  | exprStmt _ hend ih | someTest _ hend ih =>
    exact ih.append (.single (brackets_of_kind hend rfl))
  | braced ho _ hc ih => exact .enclosed (.inr ho) ih (.inr hc) .nil
  | print hword _ hend ih | ret hword _ hend ih =>
    exact .cons (brackets_of_kind hword rfl)
      (ih.append (.single (brackets_of_kind hend rfl)))
  | cond hword ho _ hc _ ih₁ ih₂ | loop hword ho _ hc _ ih₁ ih₂ =>
    exact .cons (brackets_of_kind hword rfl)
      (.enclosed (.inl ho) ih₁ (.inl hc) ih₂)
  | condElse hword ho _ hc _ hother _ ih₁ ih₂ ih₃ =>
    exact .cons (brackets_of_kind hword rfl)
      (.enclosed (.inl ho) ih₁ (.inl hc)
        (ih₂.append (.cons (brackets_of_kind hother rfl) ih₃)))
  | forLoop hword ho _ _ _ hc _ ih₁ ih₂ ih₃ ih₄ =>
    have hclauses := (ih₁.append (ih₂.append ih₃))
    have hall := Balanced.enclosed (.inl ho) hclauses (.inl hc) ih₄
    simp only [List.append_assoc] at hall
    exact .cons (brackets_of_kind hword rfl) hall
  | function hword ht ho _ hc _ ih₁ ih₂ =>
    exact .cons (brackets_of_kind hword rfl)
      (.cons (brackets_of_kind ht rfl)
        (.enclosed (.inl ho) ih₁ (.inl hc) ih₂))
  | cons _ _ ih₁ ih₂ => exact ih₁.append ih₂
  | lift _ _ ih | oneArg _ ih | present _ ih | varClause _ ih
  | exprClause _ ih | expression _ ih | block _ ih | «variable» _ ih
  | statement _ ih => exact ih

-- ============================================================ whole texts

/-- At the end of a program nothing is open. -/
theorem openDepth_of_spells {n n' : Nat} {program : List Stmt} {eof : Token}
    (h : Spells n ts (.decls program) n') (heof : eof.kind = .endOfText) :
    openDepth (ts ++ [eof]) = 0 := by
  have hall := (balanced_of_spells h).append
    (.single (brackets_of_kind heof rfl))
  exact hall 0

/-- At the end of a text that holds an open block something is open. -/
theorem openDepth_of_holds {eof : Token} (heof : eof.kind = .endOfText)
    (hts : ∀ t ∈ ts, t.kind ≠ .endOfText)
    (h : HoldsOpenBlock (ts ++ [eof])) : 0 < openDepth (ts ++ [eof]) := by
  generalize htokens : ts ++ [eof] = tokens at h
  cases h with
  | @intro before body rest opening _ _ _ hopening hbody hend =>
    have hsuffix : rest <:+ ts ++ [eof] := by
      rw [htokens]
      exact ⟨before ++ opening :: body, by simp⟩
    -- Behind the open block stands the end of the text, or nothing.
    have hrest : Balanced rest := by
      rcases List.suffix_concat_iff.1 hsuffix with
        rfl | ⟨last, rfl, hlast⟩
      · exact .nil
      · obtain rfl := eq_nil_of_end
          (fun t ht => hts t (hlast.subset ht)) hend
        exact .single (brackets_of_kind heof rfl)
    rw [openDepth, List.foldl_append, List.foldl_cons, List.foldl_append,
      balanced_of_spells hbody, hrest, openAfter_opening (.inr hopening)]
    exact Nat.succ_pos _

end Console

-- ========================================================== first tokens

open Reader

/-- What begins with a token that no declaration begins with is rejected for
that first, whatever is found behind it. -/
theorem first_of_stray {t eof : Token} {ts : List Token} {n : Nat}
    {d : Diagnostics SyntaxError} (heof : eof.kind = .endOfText)
    (hts : ∀ t' ∈ t :: ts, t'.kind ≠ .endOfText)
    (hstray : t.kind.beginsDecl = false)
    (hrejected : (parse (t :: ts ++ [eof]) n).result = .error d) :
    d.first = ⟨.noExpression t.kind, t.pos⟩ := by
  obtain ⟨program, id, a, hrun, -⟩ := declarations_course heof hts n
  have hmet : d.toList = a.met :=
    (parse_of_declarations hrun).toList_eq hrejected
  obtain ⟨budget, hbudget⟩ : ∃ budget,
      nestingBudget (t :: ts ++ [eof]) = budget + 17 + 2 :=
    ⟨32 * ts.length + 77, by simp [nestingBudget]; omega⟩
  have hstart : kindAt (t :: (ts ++ [eof])) ≠ .endOfText :=
    hts t List.mem_cons_self
  -- The reading goes on with this error, and an error is never taken back.
  rw [hbudget, List.cons_append,
    declarations_of_refused hstart (declared_of_stray hstray)] at hrun
  obtain ⟨hrecorded, -⟩ := (stmtsChart (budget + 17 + 1)).declarations
    endsProgram ⟨resume (t :: (ts ++ [eof])), n,
      [] ++ [⟨.noExpression t.kind, t.pos⟩]⟩
  rw [hrun] at hrecorded
  obtain ⟨a', -, herrors, -⟩ := hrecorded
  have hall : d.toList = ⟨.noExpression t.kind, t.pos⟩ :: a'.met :=
    hmet.trans herrors
  injection hall

namespace Console

-- =============================================================== the test

/-- For a text that can be scanned the test asks whether brackets are open
behind its last token. -/
theorem wantsMore_of_ok {text : String} {tokens : List Token}
    (h : scan text = .ok tokens) :
    wantsMore text = decide (0 < openDepth tokens) := by
  rw [wantsMore, h]

/-- For any other text it asks whether a string is not closed; a text that is
refused for something else is not waited for. -/
theorem wantsMore_iff (text : String) : wantsMore text = true ↔
    (∃ partialText pos,
        scan text = .error ⟨.unterminatedString partialText, pos⟩) ∨
      ∃ tokens, scan text = .ok tokens ∧ 0 < openDepth tokens := by
  unfold wantsMore
  cases scan text with
  | ok tokens => simp
  | error e =>
    obtain ⟨fault, pos⟩ := e
    cases fault <;> simp

/-- A program does not go on. -/
theorem wantsMore_of_program {text : String} {n : Nat}
    {program : List Stmt} (hread : (readProgram text n).1 = .ok program) :
    wantsMore text = false := by
  obtain ⟨ts, eof, hscan, heof, hs⟩ := readProgram_eq_ok_iff.1
    (Prod.ext hread rfl :
      readProgram text n = (.ok program, (readProgram text n).2))
  rw [wantsMore_of_ok hscan, openDepth_of_spells hs heof]
  rfl

/-- A text that is refused for its syntax has been scanned up to its end, and
its tokens are refused. -/
theorem parse_of_readProgram {text : String} {n : Nat}
    {d : Diagnostics SyntaxError}
    (hread : (readProgram text n).1 = .error (.syntactic d)) :
    ∃ ts eof, scan text = .ok (ts ++ [eof]) ∧
      Scans .start text.toList ts eof ∧ eof.kind = .endOfText ∧
      (∀ t ∈ ts, t.kind ≠ .endOfText) ∧
      (parse (ts ++ [eof]) n).result = .error d := by
  unfold readProgram at hread
  cases hscan : scan text with
  | error e =>
    rw [hscan] at hread
    cases hread
  | ok tokens =>
    rw [hscan] at hread
    obtain ⟨ts, eof, rfl, hscans⟩ := scans_of_scanFrom _ _ hscan
    have hlossless := hscans.lossless [] rfl
    refine ⟨ts, eof, rfl, hscans, hlossless.ends.1, hlossless.only, ?_⟩
    cases hresult : (parse (ts ++ [eof]) n).result with
    | ok program => simp [hresult, Except.mapError] at hread
    | error d' => simpa [hresult, Except.mapError] using hread

/-- A text goes on if the first of its errors is an open block. -/
theorem wantsMore_of_openBlock {text : String} {n : Nat}
    {d : Diagnostics SyntaxError}
    (hread : (readProgram text n).1 = .error (.syntactic d))
    (hopen : d.first.fault = .openBlock) : wantsMore text = true := by
  obtain ⟨ts, eof, hscan, -, heof, hts, hrejected⟩ :=
    parse_of_readProgram hread
  obtain ⟨program, id, a, hrun, -⟩ := declarations_course heof hts n
  have hmet : d.toList = a.met :=
    (parse_of_declarations hrun).toList_eq hrejected
  have hholds := holdsOpenBlock_of_first hrun
    (by rw [← hmet]; rfl) hopen
  exact (wantsMore_iff text).2
    (.inr ⟨_, hscan, openDepth_of_holds heof hts hholds⟩)

/-- A text whose first error is an open block begins like a command only if
it begins with a comment. -/
theorem looksLikeCommand_of_openBlock {text : String} {n : Nat}
    {d : Diagnostics SyntaxError}
    (hread : (readProgram text n).1 = .error (.syntactic d))
    (hopen : d.first.fault = .openBlock) :
    looksLikeCommand text = text.startsWith "//" := by
  obtain ⟨ts, eof, -, hscans, heof, hts, hrejected⟩ :=
    parse_of_readProgram hread
  rw [Bool.eq_iff_iff, looksLikeCommand, String.startsWith_string_iff,
    String.startsWith_string_iff]
  refine ⟨fun ⟨behind, hslash⟩ => ?_, List.IsPrefix.trans ⟨['/'], rfl⟩⟩
  rcases hscans.comment_or_slash (by rw [← hslash]; rfl) with
    hcomment | ⟨t, more, rfl, hkind⟩
  · -- Nothing that could be passed over stands in front of the slash.
    rw [← hslash] at hcomment ⊢
    exact hcomment
  · rw [first_of_stray heof hts (by rw [hkind]; rfl) hrejected] at hopen
    cases hopen

/-- The test whether a text goes on, and the reader, agree. A text goes on
if a string is open at its end, or if its last tokens, some number of them,
open more than they close. A program does not go on, and the return key
submits it. A text that is rejected only because blocks are open goes on;
the return key submits it if it begins with a comment, which is taken for a
command, and else goes on with it. -/
theorem continuation_agrees (text : String) :
    (wantsMore text = true ↔
      (∃ partialText pos,
          scan text = .error ⟨.unterminatedString partialText, pos⟩) ∨
        ∃ tokens, scan text = .ok tokens ∧
          ∃ last, last <:+ tokens ∧ closings last < openings last) ∧
      (∀ n program, (readProgram text n).1 = .ok program →
        wantsMore text = false ∧ enter text = ⟨text, [.submit]⟩) ∧
      ∀ n d, (readProgram text n).1 = .error (.syntactic d) →
        (∀ e ∈ d.toList, e.fault = .openBlock) →
        wantsMore text = true ∧
          enter text = if text.startsWith "//" then ⟨text, [.submit]⟩
            else ⟨text ++ "\n", [.insert]⟩ := by
  refine ⟨?_, fun n program hread => ?_, fun n d hread hfaults => ?_⟩
  · rw [wantsMore_iff]
    simp only [lt_openDepth_iff, Nat.add_zero]
  · have hcomplete := wantsMore_of_program hread
    refine ⟨hcomplete, ?_⟩
    rw [enter, hcomplete, Bool.and_false, if_neg nofun]
  · have hopen := hfaults _ List.mem_cons_self
    have hmore := wantsMore_of_openBlock hread hopen
    refine ⟨hmore, ?_⟩
    rw [enter, hmore, looksLikeCommand_of_openBlock hread hopen]
    cases text.startsWith "//" <;> rfl

/-- Two blocks are open, and the return key goes on. -/
theorem continuation_agrees_openBlocks :
    (readProgram "fun f() \x7b\x7b f();" 1).1
        = .error (.syntactic
            ⟨⟨.openBlock, ⟨1, 16, 15⟩⟩, [⟨.openBlock, ⟨1, 16, 15⟩⟩]⟩) ∧
      enter "fun f() \x7b\x7b f();"
        = ⟨"fun f() \x7b\x7b f();\n", [.insert]⟩ := by
  have hread : (readProgram "fun f() \x7b\x7b f();" 1).1
      = .error (.syntactic
          ⟨⟨.openBlock, ⟨1, 16, 15⟩⟩, [⟨.openBlock, ⟨1, 16, 15⟩⟩]⟩) := by
    cbv
  have hcomment : "fun f() \x7b\x7b f();".startsWith "//" = false := by
    cbv
  obtain ⟨-, -, hopen⟩ := continuation_agrees "fun f() \x7b\x7b f();"
  have henter := (hopen 1 _ hread (by decide)).2
  rw [hcomment, if_neg Bool.false_ne_true] at henter
  exact ⟨hread, henter⟩

/-- A text that begins with a comment is submitted, although nothing is wrong
with it but an open block. -/
theorem openBlock_submitted_behindSlash :
    (readProgram "//\n\x7b" 1).1
        = .error (.syntactic ⟨⟨.openBlock, ⟨2, 2, 4⟩⟩, []⟩) ∧
      wantsMore "//\n\x7b" = true ∧
      enter "//\n\x7b" = ⟨"//\n\x7b", [.submit]⟩ := by
  refine ⟨by cbv, by cbv, by cbv⟩

end Console

end Lox
