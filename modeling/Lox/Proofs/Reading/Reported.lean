/-
What a reading reports. Its errors stand one behind the other: each at a
token of the text and none before the last; only at the end of the text
can several stand at the same place (`parse_errors_ordered`). And a brace
that closes a block is not always found: where a reading is taken up
again, the braces that it has dropped are no longer part of any block, so
that of well nested braces as many blocks are reported as open as closing
braces were dropped too many (`openBlocks_of_wellNested`).

Both are read off the course of the reading: the first from where its
errors stand in it (`Course.stands`), the second from what becomes of its
braces (`Account.Leaves`).
-/
import Mathlib.Data.List.Forall2
import Lox.Proofs.Reading.Course
import Lox.Proofs.Reading.Lossless

namespace Lox

open Reader

open List (Forall₂)

-- ================================================================ places

/-- One place before another, by offset and as people count. -/
structure Position.Before (p q : Position) : Prop where
  offset : p.offset < q.offset
  shown : p.line < q.line ∨ (p.line = q.line ∧ p.column < q.column)

/-- Of two places that are counted off a text, the one with more of it
before is the later one. -/
theorem Position.Counts.before {text : List Char} {p q : Position}
    (hp : p.Counts (text.take p.offset)) (hq : q.Counts (text.take q.offset))
    (h : p.offset < q.offset) (hq' : q.offset ≤ text.length) :
    p.Before q := by
  refine ⟨h, ?_⟩
  obtain ⟨between, hbetween, hlength⟩ : ∃ between,
      text.take q.offset = text.take p.offset ++ between ∧
        between.length = q.offset - p.offset := by
    refine ⟨(text.drop p.offset).take (q.offset - p.offset), ?_, ?_⟩
    · rw [← List.take_add, Nat.add_sub_cancel' (Nat.le_of_lt h)]
    · simp only [List.length_take, List.length_drop]
      omega
  obtain ⟨hline, hcolumn⟩ := hp
  obtain ⟨hline', hcolumn'⟩ := hq
  rw [hbetween] at hline' hcolumn'
  rw [List.count_append] at hline'
  by_cases hnewline : '\n' ∈ between
  · have hpos := List.count_pos_iff.2 hnewline
    exact .inl (by omega)
  · -- on the same line every character between counts one column
    have hnone := List.count_eq_zero.2 hnewline
    have hplain : ∀ c ∈ between.reverse, (c != '\n') = true := by
      intro c hc
      rw [List.mem_reverse] at hc
      simp only [bne_iff_ne, ne_eq]
      rintro rfl
      exact hnewline hc
    rw [List.reverse_append, List.takeWhile_append_of_pos hplain,
      List.length_append, List.length_reverse] at hcolumn'
    exact .inr ⟨by omega, by omega⟩

/-- The tokens of a text are in order, as people count. -/
theorem Lossless.before {text : List Char} {ts : List Token} {eof : Token}
    (h : Lossless text 0 ts eof) :
    (ts ++ [eof]).Pairwise fun t u => t.pos.Before u.pos := by
  have hend : ∀ u ∈ ts ++ [eof], u.pos.offset ≤ text.length := by
    intro u hu
    rw [← h.ends.2.2]
    rcases List.mem_append.1 hu with hu | hu
    · have hlast := (List.pairwise_append.1 h.ordered).2.2 u hu eof (by simp)
      exact Nat.le_of_lt hlast.1
    · exact Nat.le_of_eq (by rw [List.mem_singleton.1 hu])
  refine h.ordered.imp_of_mem fun ht hu horder => ?_
  exact (h.placed _ ht).before (h.placed _ hu) horder.1 (hend _ hu)

-- ======================================================= errors in order

/-- At the end of the text, reading is taken up again at the end. -/
theorem resume_of_end {ts : List Token}
    (h : (tokenAt ts).kind = .endOfText) : resume ts = ts := by
  cases ts with
  | nil => rfl
  | cons t ts => exact if_pos h

/-- Tokens before the end do not begin with it. -/
theorem eq_nil_of_end {passed rest : List Token}
    (hinside : ∀ t ∈ passed, t.kind ≠ .endOfText)
    (h : (tokenAt (passed ++ rest)).kind = .endOfText) : passed = [] := by
  cases passed with
  | nil => rfl
  | cons t passed => exact absurd h (hinside t (by simp))

/-- A reader that is refused is at the end of the text, and so is its
error; or the token of the error is passed before reading is taken up
again. -/
theorem SyntaxError.Refuses.stands {e : SyntaxError}
    {since left : List Token} (h : e.Refuses since left) :
    (since = [] ∧ (tokenAt left).kind = .endOfText ∧
        e.StandsAt (tokenAt left)) ∨
      ∃ t passed, e.StandsAt t ∧ (∀ u ∈ t :: passed, u.kind ≠ .endOfText) ∧
        since ++ left = t :: passed ++ resume left := by
  obtain ⟨skipped, hleft, hskipped, hmoves⟩ := resume_eq left
  cases h with
  | here htarget hstand =>
    by_cases hlast : (tokenAt left).kind = .endOfText
    · exact .inl ⟨rfl, hlast, hstand⟩
    · obtain ⟨t, more, rfl⟩ : ∃ t more, left = t :: more := by
        refine List.exists_cons_of_ne_nil ?_
        rintro rfl
        exact hlast rfl
      obtain ⟨u, passed, rfl⟩ :=
        List.exists_cons_of_ne_nil (hmoves t rfl hlast)
      obtain rfl : t = u := (List.cons.inj hleft).1
      exact .inr ⟨t, passed, hstand, hskipped, hleft⟩
  | @assignment sign taken _ _ _ _ _ htarget hstand _ _ _ htaken =>
    have hsign : sign.kind ≠ .endOfText := by
      have hkind := hstand.2
      rw [htarget] at hkind
      rw [hkind]
      nofun
    refine .inr ⟨sign, taken ++ skipped, hstand, ?_, ?_⟩
    · refine List.forall_mem_cons.2 ⟨hsign, List.forall_mem_append.2
        ⟨fun t ht => ?_, hskipped⟩⟩
      exact TokenKind.ne_end_of_inside (htaken t ht)
    · rw [List.cons_append, List.cons_append, List.append_assoc, ← hleft]

/-- Where the errors of a course stand: in order, each at a token of its
own that was passed, and the others at the end of the text. -/
theorem Course.stands {ts rest : List Token} {a : Account}
    (h : Course ts a rest) :
    ∃ passed places count,
      ts = passed ++ rest ∧ (∀ t ∈ passed, t.kind ≠ .endOfText) ∧
        places.Sublist passed ∧
        Forall₂ SyntaxError.StandsAt a.met
          (places ++ List.replicate count (tokenAt rest)) ∧
        (count ≠ 0 → (tokenAt rest).kind = .endOfText) := by
  induction h with
  | stop => exact ⟨[], [], 0, rfl, by simp, .slnil, .nil, by simp⟩
  | @take t ts rest a ht _ ih =>
    obtain ⟨passed, places, count, rfl, hinside, hplaces, hstands, hend⟩ := ih
    exact ⟨t :: passed, places, count, rfl,
      List.forall_mem_cons.2 ⟨ht, hinside⟩, hplaces.cons t, hstands, hend⟩
  | @recover e since left skipped rest a he _ _ ih =>
    obtain ⟨passed, places, count, hpassed, hinside, hplaces, hstands,
      hend⟩ := ih
    rcases he.stands with
      ⟨rfl, hlast, hstand⟩ | ⟨t, passed', hstand, hinside', hall⟩
    · -- at the end nothing is dropped, and the course stays there
      rw [resume_of_end hlast] at hpassed
      obtain rfl := eq_nil_of_end hinside (hpassed ▸ hlast)
      obtain rfl := List.sublist_nil.1 hplaces
      obtain rfl : left = rest := hpassed
      exact ⟨[], [], count + 1, rfl, by simp, .slnil, .cons hstand hstands,
        fun _ => hlast⟩
    · refine ⟨t :: passed' ++ passed, t :: places, count, ?_,
        List.forall_mem_append.2 ⟨hinside', hinside⟩, ?_,
        .cons hstand hstands, hend⟩
      · rw [hall, hpassed, List.append_assoc]
      · exact (hplaces.trans (List.sublist_append_right _ _)).cons_cons t

/-- Every error stands at one of the tokens at which they all stand. -/
theorem exists_standsAt {errors : List SyntaxError} {places : List Token}
    (h : Forall₂ SyntaxError.StandsAt errors places) :
    ∀ e ∈ errors, ∃ t ∈ places, e.StandsAt t := by
  induction h with
  | nil => simp
  | cons hfirst _ ih =>
    refine List.forall_mem_cons.2 ⟨⟨_, by simp, hfirst⟩, fun e he => ?_⟩
    obtain ⟨t, ht, hstand⟩ := ih e he
    exact ⟨t, List.mem_cons_of_mem _ ht, hstand⟩

/-- Errors are in the order of the tokens at which they stand. -/
theorem pairwise_of_stands {errors : List SyntaxError} {places : List Token}
    {R : Position → Position → Prop}
    (h : Forall₂ SyntaxError.StandsAt errors places)
    (hplaces : places.Pairwise fun t u => R t.pos u.pos) :
    errors.Pairwise fun e e' => R e.pos e'.pos := by
  induction h with
  | nil => exact .nil
  | cons hfirst hothers ih =>
    obtain ⟨hbefore, hmore⟩ := List.pairwise_cons.1 hplaces
    refine List.pairwise_cons.2 ⟨fun e he => ?_, ih hmore⟩
    obtain ⟨u, hu, hstand⟩ := exists_standsAt hothers e he
    rw [hfirst.1, hstand.1]
    exact hbefore u hu

/-- A text that is rejected is rejected with what was met in it. -/
theorem Parsed.Is.toList_eq {p : Parsed} {program : List Stmt}
    {errors : List SyntaxError} {id : Nat} {d : Diagnostics SyntaxError}
    (h : p.Is program errors id) (hrejected : p.result = .error d) :
    d.toList = errors := by
  obtain ⟨-, ⟨-, hresult⟩ | ⟨d', hmet, hresult⟩⟩ := h
  · rw [hresult] at hrejected
    cases hrejected
  · rw [hresult] at hrejected
    cases hrejected
    exact hmet

/-- A text that is rejected is rejected with the first of the errors that
its reading has collected up to the end. Each of them stands at a token of
the text and says what that is; and each stands before the next, unless
both stand at the end. -/
theorem parse_errors_ordered {source : String} {tokens : List Token}
    {n : Nat} {d : Diagnostics SyntaxError}
    (hscan : scan source = .ok tokens)
    (hrejected : (parse tokens n).result = .error d) :
    ∃ ts eof, tokens = ts ++ [eof] ∧ eof.kind = .endOfText ∧
      (∀ t ∈ ts, t.kind ≠ .endOfText) ∧
      (∃ program id,
        declarations endsProgram (nestingBudget tokens) ⟨tokens, n, []⟩
          = .ok program ⟨[eof], id, d.first :: d.others⟩) ∧
      (∀ e ∈ d.toList, ∃ t ∈ tokens, e.StandsAt t) ∧
      d.toList.Pairwise fun e e' =>
        e.pos.Before e'.pos ∨ (e.pos = eof.pos ∧ e'.pos = eof.pos) := by
  obtain ⟨ts, eof, rfl, hscans⟩ := scans_of_scanFrom _ _ hscan
  have hlossless := hscans.lossless [] rfl
  have heof := hlossless.ends.1
  have hts := hlossless.only
  obtain ⟨program, id, a, hrun, hcourse, -⟩ :=
    declarations_course heof hts n
  have hmet : d.toList = a.met :=
    (parse_of_declarations hrun).toList_eq hrejected
  obtain ⟨passed, places, count, hpassed, -, hplaces, hstands, -⟩ :=
    hcourse.stands
  obtain rfl : passed = ts := (List.append_cancel_right hpassed).symm
  rw [← hmet] at hstands
  refine ⟨passed, eof, rfl, heof, hts, ⟨program, id, ?_⟩, fun e he => ?_, ?_⟩
  · rw [hrun, ← hmet]
    rfl
  · obtain ⟨t, ht, hstand⟩ := exists_standsAt hstands e he
    refine ⟨t, ?_, hstand⟩
    rcases List.mem_append.1 ht with ht | ht
    · exact List.mem_append_left _ (hplaces.subset ht)
    · exact List.mem_append_right _
        (List.mem_singleton.2 (List.eq_of_mem_replicate ht))
  · refine pairwise_of_stands hstands
      (R := fun p q => p.Before q ∨ (p = eof.pos ∧ q = eof.pos)) ?_
    -- Inside the text places increase, and whatever is not inside is at the
    -- end.
    obtain ⟨hinside, -, hlast⟩ := List.pairwise_append.1 hlossless.before
    refine List.pairwise_append.2 ⟨?_, ?_, fun t ht u hu => ?_⟩
    · exact (hinside.sublist hplaces).imp fun h => .inl h
    · exact List.pairwise_replicate.2 (.inr (.inr ⟨rfl, rfl⟩))
    · obtain rfl := List.eq_of_mem_replicate hu
      exact .inl (hlast t (hplaces.subset ht) _ (by simp))

/-- A misplaced assignment and two open blocks: the last two errors both
stand at the end. -/
theorem parse_errors_ordered_openBlocks :
    let source := "1 = 2;\x7b\x7b"
    let tokens : List Token :=
      [⟨.number, "1", ⟨1, 1, 0⟩⟩, ⟨.equal, "=", ⟨1, 3, 2⟩⟩,
        ⟨.number, "2", ⟨1, 5, 4⟩⟩, ⟨.semicolon, ";", ⟨1, 6, 5⟩⟩,
        ⟨.leftBrace, "\x7b", ⟨1, 7, 6⟩⟩, ⟨.leftBrace, "\x7b", ⟨1, 8, 7⟩⟩,
        ⟨.endOfText, "", ⟨1, 9, 8⟩⟩]
    let d : Diagnostics SyntaxError :=
      ⟨⟨.invalidTarget, ⟨1, 3, 2⟩⟩,
        [⟨.openBlock, ⟨1, 9, 8⟩⟩, ⟨.openBlock, ⟨1, 9, 8⟩⟩]⟩
    scan source = .ok tokens ∧ (parse tokens 0).result = .error d ∧
      ∃ eof ∈ tokens, d.toList.Pairwise fun e e' =>
        e.pos.Before e'.pos ∨ (e.pos = eof.pos ∧ e'.pos = eof.pos) := by
  intro source tokens d
  have hscan : scan source = .ok tokens := by decide +kernel
  have hrejected : (parse tokens 0).result = .error d := rfl
  obtain ⟨ts, eof, htokens, -, -, -, -, hordered⟩ :=
    parse_errors_ordered hscan hrejected
  exact ⟨hscan, hrejected, eof, by simp [htokens], hordered⟩

-- ================================================================ braces

/-- Every brace that is opened is closed, and none else. -/
inductive WellNested : List Token → Prop where
  | nil : WellNested []
  | other {t : Token} {ts : List Token} :
      t.kind ≠ .leftBrace → t.kind ≠ .rightBrace → WellNested ts →
      WellNested (t :: ts)
  | block {opening closing : Token} {body ts : List Token} :
      opening.kind = .leftBrace → closing.kind = .rightBrace →
      WellNested body → WellNested ts →
      WellNested (opening :: body ++ closing :: ts)

theorem countKind_cons (kind : TokenKind) (t : Token) (ts : List Token) :
    countKind kind (t :: ts)
      = countKind kind ts + if t.kind = kind then 1 else 0 := by
  simp [countKind, List.countP_cons]

/-- Well nested, as many braces are opened as closed. -/
theorem WellNested.countKind_eq {ts : List Token} (h : WellNested ts) :
    countKind .leftBrace ts = countKind .rightBrace ts := by
  induction h with
  | nil => rfl
  | other hopening hclosing _ ih => simp [countKind_cons, *]
  | block hopening hclosing _ _ ih ih' =>
    simp only [countKind_append, countKind_cons, hopening, hclosing, ih, ih',
      reduceCtorEq, if_true, if_false]
    omega

/-- Every token that is passed is taken or dropped. -/
theorem Course.countKind_eq {ts rest : List Token} {a : Account}
    (h : Course ts a rest) (kind : TokenKind) :
    countKind kind ts
      = countKind kind a.taken + countKind kind a.dropped
        + countKind kind rest := by
  induction h with
  | stop => simp [countKind]
  | take _ _ ih =>
    simp only [countKind_cons, ih]
    omega
  | recover _ hleft _ ih =>
    rw [hleft]
    simp only [countKind_append, ih]
    omega

/-- Of a text whose braces are well nested, a block is reported as open
for every closing brace that was dropped behind an error, less the opening
ones that were dropped as well. So no block is, unless a closing brace was
dropped. -/
theorem openBlocks_of_wellNested {ts : List Token} {eof : Token}
    (heof : eof.kind = .endOfText) (hts : ∀ t ∈ ts, t.kind ≠ .endOfText)
    (hnested : WellNested ts) (n : Nat) :
    ∃ program id a, (parse (ts ++ [eof]) n).Is program a.met id ∧
      Course (ts ++ [eof]) a [eof] ∧
      countOpenBlocks a.met + countKind .leftBrace a.dropped
        = countKind .rightBrace a.dropped ∧
      ((∀ t ∈ a.dropped, t.kind ≠ .rightBrace) →
        ∀ e ∈ a.met, e.fault ≠ .openBlock) := by
  obtain ⟨program, id, a, hrun, hcourse, hleaves⟩ :=
    declarations_course heof hts n
  have hbraces : countOpenBlocks a.met + countKind .leftBrace a.dropped
      = countKind .rightBrace a.dropped := by
    have hopened := hcourse.countKind_eq .leftBrace
    have hclosed := hcourse.countKind_eq .rightBrace
    simp only [countKind_append, hnested.countKind_eq] at hopened hclosed
    unfold Account.Leaves at hleaves
    omega
  refine ⟨program, id, a, parse_of_declarations hrun, hcourse, hbraces,
    fun hkept e he hopen => ?_⟩
  have hnone := countKind_eq_zero hkept
  have hreported : 0 < countOpenBlocks a.met :=
    List.countP_pos_iff.2 ⟨e, he, by simpa using hopen⟩
  omega

/-- A block with a faulty statement that ends with its semicolon: the
closing brace is kept. -/
theorem openBlocks_of_wellNested_kept :
    let opening : Token := ⟨.leftBrace, "\x7b", .start⟩
    let word : Token := ⟨.kwPrint, "print", .start⟩
    let mark : Token := ⟨.semicolon, ";", .start⟩
    let closing : Token := ⟨.rightBrace, "\x7d", .start⟩
    let eof : Token := ⟨.endOfText, "", .start⟩
    let ts := [opening, word, mark, closing]
    WellNested ts ∧
      (parse (ts ++ [eof]) 0).result
        = .error ⟨⟨.noExpression .semicolon, .start⟩, []⟩ ∧
      ∃ program id, ∃ a : Account,
        (parse (ts ++ [eof]) 0).Is program a.met id ∧
          Course (ts ++ [eof]) a [eof] ∧
          countOpenBlocks a.met + countKind .leftBrace a.dropped
            = countKind .rightBrace a.dropped := by
  intro opening word mark closing eof ts
  have hnested : WellNested (opening :: [word, mark] ++ closing :: []) :=
    .block rfl rfl (.other (by decide) (by decide)
      (.other (by decide) (by decide) .nil)) .nil
  obtain ⟨program, id, a, hread, hcourse, hbraces, -⟩ :=
    @openBlocks_of_wellNested ts eof rfl (by decide) hnested 0
  exact ⟨hnested, rfl, program, id, a, hread, hcourse, hbraces⟩

/-- A statement without its semicolon before the brace that closes its
block: the braces are well nested, but recovery drops the closing one, at
which the fault was met, and the block is reported as open as well. -/
theorem closed_block_reported_open :
    let opening : Token := ⟨.leftBrace, "\x7b", ⟨1, 1, 0⟩⟩
    let word : Token := ⟨.kwPrint, "print", ⟨1, 3, 2⟩⟩
    let value : Token := ⟨.number, "1", ⟨1, 9, 8⟩⟩
    let closing : Token := ⟨.rightBrace, "\x7d", ⟨1, 11, 10⟩⟩
    let eof : Token := ⟨.endOfText, "", ⟨1, 12, 11⟩⟩
    let ts := [opening, word, value, closing]
    scan "\x7b print 1 \x7d" = .ok (ts ++ [eof]) ∧ WellNested ts ∧
      (parse (ts ++ [eof]) 0).result
        = .error ⟨⟨.noEnd .printedValue .rightBrace, closing.pos⟩,
            [⟨.openBlock, eof.pos⟩]⟩ := by
  intro opening word value closing eof ts
  refine ⟨by decide +kernel, ?_, rfl⟩
  show WellNested (opening :: [word, value] ++ closing :: [])
  exact .block rfl rfl (.other (by decide) (by decide)
      (.other (by decide) (by decide) .nil)) .nil

end Lox
