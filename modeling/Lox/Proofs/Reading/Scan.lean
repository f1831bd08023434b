/-
Two texts one behind the other. The scanner looks at most to the end of
the line, except in a string, and a string that is closed is not gone on
with. So behind a text that was scanned without a fault and a newline
the scan starts anew: what is found there is what is found in the second
text alone, further down (`scanFrom_append`).
-/
import Lox.Token.Scan
import Lox.Proofs.Reading.Numbering
import Lox.Proofs.Reading.Parse

namespace Lox

-- ============================================================== the front

theorem punctuation?_ne_end {c : Char} {kind : TokenKind}
    (h : punctuation? c = some kind) : kind ≠ .endOfText := by
  unfold punctuation? at h
  split at h <;> cases h <;> nofun

theorem extensible?_ne_end {c : Char} {alone extended : TokenKind}
    (h : extensible? c = some (alone, extended)) :
    alone ≠ .endOfText ∧ extended ≠ .endOfText := by
  unfold extensible? at h
  split at h <;> cases h <;> exact ⟨nofun, nofun⟩

/-- No word is the end of the text. -/
theorem wordKind_ne_end (word : String) : wordKind word ≠ .endOfText := by
  unfold wordKind
  split <;> nofun

/-- What stands at the front does not reach beyond the text, and is no
end of it. -/
def Front.Within (rest : List Char) : Front → Prop
  | skipped more => more ≤ rest.length
  | token kind more => kind ≠ .endOfText ∧ more ≤ rest.length
  | fault _ => True

/-- A string that is closed has its closing quote inside the text. -/
theorem stringFront_within (rest : List Char) :
    (stringFront rest).Within rest := by
  unfold stringFront
  simp only
  split
  · next hclosed => exact ⟨nofun, hclosed⟩
  · trivial

theorem numberFront_within (first : Char) (rest : List Char) :
    (numberFront first rest).Within rest := by
  have hsplit := congrArg List.length
    (List.takeWhile_append_dropWhile (p := Text.isDigit) (l := rest))
  rw [List.length_append] at hsplit
  unfold numberFront
  simp only
  split
  · next places hplaces =>
    rw [hplaces, List.length_cons] at hsplit
    have hle := (List.takeWhile_prefix Text.isDigit (l := places)).length_le
    split
    · trivial
    · exact ⟨nofun, by omega⟩
  · exact ⟨nofun, by omega⟩

/-- Whatever the front of a text is, it takes no more than there is, and a
token there is not the end of the text. -/
theorem front_within (c : Char) (rest : List Char) :
    (front c rest).Within rest := by
  unfold front
  split
  · exact Nat.zero_le _
  split
  · split
    · exact (List.takeWhile_prefix _).length_le
    · exact ⟨nofun, Nat.zero_le _⟩
  split
  · next hkind => exact ⟨punctuation?_ne_end hkind, Nat.zero_le _⟩
  split
  · next hkinds =>
    obtain ⟨halone, hextended⟩ := extensible?_ne_end hkinds
    split
    · next hhead =>
      exact ⟨hextended, List.length_pos_of_mem (List.mem_of_mem_head? hhead)⟩
    · exact ⟨halone, Nat.zero_le _⟩
  split
  · exact stringFront_within rest
  split
  · exact numberFront_within c rest
  split
  · exact ⟨wordKind_ne_end _, (List.takeWhile_prefix _).length_le⟩
  · trivial

-- ====================================================== behind a newline

/-- Where a run of characters ends at the latest. -/
theorem takeWhile_append_of_stop {p : Char → Bool} {b : Char}
    (hb : p b = false) (as bs : List Char) :
    (as ++ b :: bs).takeWhile p = as.takeWhile p := by
  induction as with
  | nil => simp [hb]
  | cons a as ih =>
    cases ha : p a <;> simp [ha, ih]

/-- A character that stops the search stops it at the latest there, whatever
stands behind it. -/
theorem dropWhile_append_of_stop {p : Char → Bool} {b : Char}
    (hb : p b = false) (as bs : List Char) :
    (as ++ b :: bs).dropWhile p = as.dropWhile p ++ b :: bs := by
  induction as with
  | nil => simp [hb]
  | cons a as ih =>
    cases ha : p a <;> simp [ha, ih]

/-- If the search stops inside the text, more text behind it changes
nothing. -/
theorem takeWhile_append_of_closed {p : Char → Bool} {as : List Char}
    (h : (as.takeWhile p).length < as.length) (bs : List Char) :
    (as ++ bs).takeWhile p = as.takeWhile p := by
  rw [List.takeWhile_append, if_neg (Nat.ne_of_lt h)]

/-- A newline is never the character that is looked for, so the next character
is the same with a newline behind the text as without. -/
theorem head?_append_newline {as : List Char} {c : Char} (hc : c ≠ '\n')
    (bs : List Char) :
    (as ++ '\n' :: bs).head? = some c ↔ as.head? = some c := by
  cases as with
  | nil => simpa using hc.symm
  | cons a as => rfl

variable {bs : List Char}

/-- A string that is closed is the same with more lines behind it. An unclosed
one need not be. -/
theorem stringFront_newline {rest : List Char}
    (h : ∀ fault, stringFront rest ≠ .fault fault) :
    stringFront (rest ++ '\n' :: bs) = stringFront rest := by
  unfold stringFront at *
  simp only at *
  split at h
  · next hclosed =>
    rw [takeWhile_append_of_closed hclosed, if_pos hclosed, if_pos]
    rw [List.length_append]
    exact Nat.lt_of_lt_of_le hclosed (Nat.le_add_right _ _)
  · exact absurd rfl (h _)

/-- A number ends at a newline at the latest. -/
theorem numberFront_newline {first : Char} {rest : List Char}
    (h : ∀ fault, numberFront first rest ≠ .fault fault) :
    numberFront first (rest ++ '\n' :: bs) = numberFront first rest := by
  have hdigit : Text.isDigit '\n' = false := by decide
  unfold numberFront at *
  simp only at *
  rw [takeWhile_append_of_stop hdigit, dropWhile_append_of_stop hdigit]
  split at h
  · next places hplaces =>
    rw [hplaces]
    simp only [List.cons_append]
    rw [takeWhile_append_of_stop hdigit]
  · next hplain =>
    cases hrest : rest.dropWhile Text.isDigit with
    | nil => rfl
    | cons d ds =>
      have hd : d ≠ '.' := fun heq => hplain ds (heq ▸ hrest)
      split
      · next heq =>
        injection heq with heq
        exact absurd heq hd
      · rfl

/-- What stands at the front of a text stands there also if a newline
and another text follow. -/
theorem front_newline {c : Char} {rest : List Char}
    (h : ∀ fault, front c rest ≠ .fault fault) :
    front c (rest ++ '\n' :: bs) = front c rest := by
  have hslash : '/' ≠ '\n' := by decide
  have hequal : '=' ≠ '\n' := by decide
  have hword : continuesName '\n' = false := by decide
  unfold front at *
  simp only [head?_append_newline hslash, head?_append_newline hequal]
  split
  · rfl
  next hlayout =>
  split
  · rw [takeWhile_append_of_stop (p := (· != '\n')) rfl]
  next hc =>
  split
  · rfl
  next hpunctuation =>
  split
  · rfl
  next hextensible =>
  -- Only a string or a number could be at fault, and here neither is.
  simp only [hlayout, hc, hpunctuation, hextensible, if_false] at h
  split
  · next hquote => exact stringFront_newline (by simpa [hquote] using h)
  next hquote =>
  split
  · next hdigit =>
    exact numberFront_newline (by simpa [hquote, hdigit] using h)
  split
  · unfold wordFront
    rw [takeWhile_append_of_stop hword]
  · rfl

-- ============================================================== the scan

/-- The place behind a text is the place behind its parts. -/
theorem after_rest (p : Position) (c : Char) (rest more : List Char)
    (n : Nat) :
    (p.after (c :: rest.take n)).after (rest.drop n ++ more)
      = p.after (c :: rest ++ more) := by
  rw [← Position.after_append, List.cons_append, ← List.append_assoc,
    List.take_append_drop, List.cons_append]

/-- The tokens of a text end with its only end, and behind a newline the
scan goes on as if nothing were before. -/
theorem scanFrom_eq_ok (p : Position) (cs : List Char) {tokens : List Token}
    (h : scanFrom p cs = .ok tokens) :
    ∃ ts eof, tokens = ts ++ [eof] ∧ eof.kind = .endOfText ∧
      (∀ t ∈ ts, t.kind ≠ .endOfText) ∧
      ∀ bs, scanFrom p (cs ++ '\n' :: bs)
        = (scanFrom (p.after (cs ++ ['\n'])) bs).map (ts ++ ·) := by
  fun_induction scanFrom p cs generalizing tokens with
  | case1 p =>
    cases h
    refine ⟨[], _, rfl, rfl, nofun, fun bs => ?_⟩
    -- At the end the newline is one more gap.
    have hfront : front '\n' bs = .skipped 0 := rfl
    rw [List.nil_append, scanFrom, hfront]
    show scanFrom (p.after ['\n']) bs
      = Except.map _ (scanFrom (p.after ['\n']) bs)
    cases scanFrom (p.after ['\n']) bs <;> rfl
  | case2 p c rest more hfront ih =>
    obtain ⟨ts, eof, rfl, heof, hts, hmore⟩ := ih h
    have hle : more ≤ rest.length := by
      simpa [hfront, Front.Within] using front_within c rest
    refine ⟨ts, eof, rfl, heof, hts, fun bs => ?_⟩
    have hnewline : front c (rest ++ '\n' :: bs) = .skipped more := by
      rw [front_newline (by simp [hfront]), hfront]
    rw [List.cons_append, scanFrom, hnewline]
    simp only
    rw [List.take_append_of_le_length hle, List.drop_append_of_le_length hle,
      hmore bs, after_rest]
  | case3 p c rest kind more hfront ih =>
    cases hscan : scanFrom (p.after (c :: rest.take more))
        (rest.drop more) with
    | error e =>
      rw [hscan] at h
      cases h
    | ok others =>
      obtain ⟨ts, eof, rfl, heof, hts, hmore⟩ := ih hscan
      rw [hscan] at h
      cases h
      obtain ⟨hkind, hle⟩ : kind ≠ .endOfText ∧ more ≤ rest.length := by
        simpa [hfront, Front.Within] using front_within c rest
      refine ⟨⟨kind, String.ofList (c :: rest.take more), p⟩ :: ts, eof, rfl,
        heof, List.forall_mem_cons.2 ⟨hkind, hts⟩, fun bs => ?_⟩
      have hnewline : front c (rest ++ '\n' :: bs) = .token kind more := by
        rw [front_newline (by simp [hfront]), hfront]
      rw [List.cons_append, scanFrom, hnewline]
      simp only
      rw [List.take_append_of_le_length hle,
        List.drop_append_of_le_length hle, hmore bs, after_rest]
      cases scanFrom (p.after (c :: rest ++ ['\n'])) bs <;> rfl
  | case4 => cases h

-- ====================================================== further down

namespace Position

/-- The same place of a text that stands further down, behind so many
lines and characters. -/
def below (lines characters : Nat) (p : Position) : Position :=
  ⟨p.line + lines, p.column, p.offset + characters⟩

/-- Going on by a character from further down ends further down. -/
theorem advance_below (lines characters : Nat) (p : Position) (c : Char) :
    (p.below lines characters).advance c
      = (p.advance c).below lines characters := by
  unfold advance below
  split <;> simp <;> omega

theorem after_below (lines characters : Nat) (p : Position)
    (cs : List Char) :
    (p.below lines characters).after cs
      = (p.after cs).below lines characters := by
  induction cs generalizing p with
  | nil => rfl
  | cons c cs ih => rw [after_cons, advance_below, ih, after_cons]

/-- The line grows by the newlines passed. -/
theorem line_after (p : Position) (cs : List Char) :
    (p.after cs).line = p.line + cs.count '\n' := by
  induction cs generalizing p with
  | nil => rfl
  | cons c cs ih =>
    rw [after_cons, ih, List.count_cons]
    unfold advance
    by_cases hc : c = '\n'
    · simp [hc]
      omega
    · simp [hc]

/-- Behind a newline, one is at the beginning of a line. -/
theorem after_newline (cs : List Char) :
    start.after (cs ++ ['\n'])
      = start.below (cs.count '\n' + 1) (cs.length + 1) := by
  have hline := line_after start cs
  have hoffset := offset_after start cs
  rw [after_append, after_cons, after_nil, advance, if_pos rfl, below,
    hline, hoffset]
  simp only [start, mk.injEq, true_and]
  omega

end Position

/-- The token at another place. -/
def Token.moved (move : Position → Position) (t : Token) : Token :=
  { t with pos := move t.pos }

/-- A text further down has the same tokens further down. -/
theorem scanFrom_below (lines characters : Nat) (p : Position)
    (cs : List Char) {tokens : List Token}
    (h : scanFrom p cs = .ok tokens) :
    scanFrom (p.below lines characters) cs
      = .ok (tokens.map (·.moved (.below lines characters))) := by
  fun_induction scanFrom p cs generalizing tokens with
  | case1 p =>
    cases h
    rw [scanFrom]
    rfl
  | case2 p c rest more hfront ih =>
    rw [scanFrom, hfront]
    simp only
    rw [Position.after_below]
    exact ih h
  | case3 p c rest kind more hfront ih =>
    cases hscan : scanFrom (p.after (c :: rest.take more))
        (rest.drop more) with
    | error e =>
      rw [hscan] at h
      cases h
    | ok others =>
      rw [hscan] at h
      cases h
      rw [scanFrom, hfront]
      simp only
      rw [Position.after_below, ih hscan]
      rfl
  | case4 => cases h

-- ============================================================== programs

/-- A text is a program exactly when its tokens, without the end, spell
one. -/
theorem readProgram_eq_ok_iff {source : String} {n n' : Nat}
    {program : List Stmt} :
    readProgram source n = (.ok program, n') ↔ ∃ ts eof,
      scan source = .ok (ts ++ [eof]) ∧ eof.kind = .endOfText ∧
        Spells n ts (.decls program) n' := by
  constructor
  · intro h
    unfold readProgram at h
    split at h
    · cases h
    · next tokens hscan =>
      obtain ⟨ts, eof, rfl, heof, hts, -⟩ := scanFrom_eq_ok _ _ hscan
      refine ⟨ts, eof, hscan, heof, spells_of_parse heof hts ?_⟩
      rcases hparse : parse (ts ++ [eof]) n with ⟨_ | program', n''⟩ <;>
        rw [hparse] at h <;> cases h
      rfl
  · rintro ⟨ts, eof, hscan, heof, hs⟩
    unfold readProgram
    rw [hscan]
    simp only [parse_of_spells heof hs]
    rfl

/-- The nodes of a program have the numbers that its reading used up. -/
theorem numbered_readProgram {source : String} {n n' : Nat}
    {program : List Stmt} (h : readProgram source n = (.ok program, n')) :
    Numbered n (Stmt.idsAll program) n' := by
  obtain ⟨ts, eof, -, -, hs⟩ := readProgram_eq_ok_iff.1 h
  exact hs.numbered

end Lox
