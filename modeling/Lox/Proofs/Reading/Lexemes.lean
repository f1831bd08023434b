/-
The words of the language, said without the scanner. `Cuts kind lexeme
rest` says that a token of this kind with this spelling is cut off a
text that goes on with `rest`: which spellings the kind has, and what
must not come next, because the token would be longer then. It is what
the scanner does at the front of a text, in both directions
(`cuts_of_front`, `front_of_cuts`), so that all that is proved of tokens
goes by the ways to spell one, and not by the tests of the scanner.
-/
import Lox.Proofs.Reading.Scan

namespace Lox

/-- A token of this kind and spelling, in front of a text that does not
make it longer. -/
inductive Cuts : TokenKind → List Char → List Char → Prop
  | slash {rest : List Char} (hnext : rest.head? ≠ some '/') :
      Cuts .slash ['/'] rest
  | punctuation {c : Char} {kind : TokenKind} {rest : List Char}
      (hkind : punctuation? c = some kind) : Cuts kind [c] rest
  | alone {c : Char} {kind extended : TokenKind} {rest : List Char}
      (hkinds : extensible? c = some (kind, extended))
      (hnext : rest.head? ≠ some '=') : Cuts kind [c] rest
  | extended {c : Char} {alone kind : TokenKind} {rest : List Char}
      (hkinds : extensible? c = some (alone, kind)) : Cuts kind [c, '='] rest
  | string {contents rest : List Char} (hcontents : ∀ d ∈ contents, d ≠ '"') :
      Cuts .string ('"' :: (contents ++ ['"'])) rest
  | whole {first : Char} {digits rest : List Char}
      (hfirst : Text.isDigit first = true)
      (hdigits : ∀ d ∈ digits, Text.isDigit d = true)
      (hnext : ∀ d ∈ rest.head?, Text.isDigit d = false)
      (hpoint : rest.head? ≠ some '.') : Cuts .number (first :: digits) rest
  | fraction {first : Char} {digits decimals rest : List Char}
      (hfirst : Text.isDigit first = true)
      (hdigits : ∀ d ∈ digits, Text.isDigit d = true)
      (hsome : decimals ≠ [])
      (hdecimals : ∀ d ∈ decimals, Text.isDigit d = true)
      (hnext : ∀ d ∈ rest.head?, Text.isDigit d = false) :
      Cuts .number (first :: (digits ++ '.' :: decimals)) rest
  | word {first : Char} {more rest : List Char}
      (hfirst : startsName first = true)
      (hmore : ∀ d ∈ more, continuesName d = true)
      (hnext : ∀ d ∈ rest.head?, continuesName d = false) :
      Cuts (wordKind (String.ofList (first :: more))) (first :: more) rest

-- ================================================ from the scanner

/-- A run of characters, what is behind it, and where it ends. -/
theorem run_of_takeWhile (p : Char → Bool) (cs : List Char) :
    ∃ run rest, cs = run ++ rest ∧ cs.takeWhile p = run ∧
      cs.dropWhile p = rest ∧ (∀ c ∈ run, p c = true) ∧
      ∀ c ∈ rest.head?, p c = false := by
  refine ⟨cs.takeWhile p, cs.dropWhile p, ?_, rfl, rfl, ?_, ?_⟩
  · exact List.takeWhile_append_dropWhile.symm
  · exact fun c hc => List.all_eq_true.1 List.all_takeWhile c hc
  · intro c hc
    have hstop := List.head?_dropWhile_not p cs
    rw [Option.mem_def.1 hc] at hstop
    exact hstop

variable {c : Char} {rest : List Char} {kind : TokenKind} {more : Nat}

/-- What the scanner takes for a string is one: it goes on to the next
quote. -/
theorem cuts_of_stringFront (h : stringFront rest = .token kind more) :
    Cuts kind ('"' :: rest.take more) (rest.drop more) := by
  obtain ⟨contents, others, rfl, hrun, -, hcontents, hstop⟩ :=
    run_of_takeWhile (· != '"') rest
  unfold stringFront at h
  simp only [hrun] at h
  split at h
  · next hclosed =>
    cases h
    cases others with
    | nil => simp at hclosed
    | cons quote others =>
      have hquote : quote = '"' := by simpa using hstop quote rfl
      subst hquote
      rw [List.append_cons, ← List.length_singleton, ← List.length_append,
        List.take_left, List.drop_left]
      exact .string fun d hd => by simpa using hcontents d hd
  · cases h

/-- What it takes for a number is one: digits, and a fraction only if digits
follow the point. -/
theorem cuts_of_numberFront {first : Char}
    (hfirst : Text.isDigit first = true)
    (h : numberFront first rest = .token kind more) :
    Cuts kind (first :: rest.take more) (rest.drop more) := by
  obtain ⟨digits, others, rfl, hrun, hothers, hdigits, hstop⟩ :=
    run_of_takeWhile Text.isDigit rest
  unfold numberFront at h
  simp only [hrun, hothers] at h
  split at h
  · next places =>
    obtain ⟨decimals, others, rfl, hrun, -, hdecimals, hstop⟩ :=
      run_of_takeWhile Text.isDigit places
    rw [hrun] at h
    split at h
    · cases h
    · next hsome =>
      cases h
      have hlength : digits.length + 1 + decimals.length
          = (digits ++ '.' :: decimals).length := by
        simp
        omega
      rw [hlength, ← List.cons_append, ← List.append_assoc,
        List.take_left, List.drop_left]
      exact .fraction hfirst hdigits (by simpa using hsome) hdecimals hstop
  · next hplain =>
    cases h
    rw [List.take_left, List.drop_left]
    refine .whole hfirst hdigits hstop fun hpoint => ?_
    obtain ⟨places, rfl⟩ := List.head?_eq_some_iff.1 hpoint
    exact hplain places rfl

/-- What it takes for a word is one: it goes on as long as a name can. -/
theorem cuts_of_wordFront {first : Char} (hfirst : startsName first = true)
    (h : wordFront first rest = .token kind more) :
    Cuts kind (first :: rest.take more) (rest.drop more) := by
  obtain ⟨tail, others, rfl, hrun, -, htail, hstop⟩ :=
    run_of_takeWhile continuesName rest
  unfold wordFront at h
  simp only [hrun] at h
  cases h
  rw [List.take_left, List.drop_left]
  exact .word hfirst htail hstop

/-- What the scanner takes for a token is one. -/
theorem cuts_of_front (h : front c rest = .token kind more) :
    Cuts kind (c :: rest.take more) (rest.drop more) := by
  unfold front at h
  split at h
  · cases h
  split at h
  · next hslash =>
    subst hslash
    split at h
    · cases h
    · next hnext =>
      cases h
      exact .slash hnext
  split at h
  · next hkind =>
    cases h
    exact .punctuation hkind
  split at h
  · next hkinds =>
    split at h
    · next hhead =>
      cases h
      obtain ⟨others, rfl⟩ := List.head?_eq_some_iff.1 hhead
      exact .extended hkinds
    · next hnext =>
      cases h
      exact .alone hkinds hnext
  split at h
  · next hquote =>
    subst hquote
    exact cuts_of_stringFront h
  split at h
  · next hdigit => exact cuts_of_numberFront hdigit h
  split at h
  · next hstarts => exact cuts_of_wordFront hstarts h
  · cases h

-- ================================================== to the scanner

/-- A run of characters ends where the next character is none of them. -/
theorem takeWhile_of_run {p : Char → Bool} (run rest : List Char)
    (hrun : ∀ c ∈ run, p c = true) (hstop : ∀ c ∈ rest.head?, p c = false) :
    (run ++ rest).takeWhile p = run ∧ (run ++ rest).dropWhile p = rest := by
  rw [List.takeWhile_append_of_pos hrun, List.dropWhile_append_of_pos hrun]
  cases rest with
  | nil => simp
  | cons c rest => simp [hstop c rfl]

/-- A character that is neither layout nor a sign: the tests for these
fail. -/
def Inner (c : Char) : Prop :=
  isLayout c = false ∧ c ≠ '/' ∧ punctuation? c = none ∧ extensible? c = none

/-- A character that begins no sign begins a string, a number or a word, or is
refused. -/
theorem front_of_inner (h : Inner c) :
    front c rest
      = if c = '"' then stringFront rest
        else if Text.isDigit c then numberFront c rest
        else if startsName c then wordFront c rest
        else .fault (.unexpectedCharacter c) := by
  obtain ⟨hlayout, hslash, hpunctuation, hextensible⟩ := h
  rw [front, hlayout, if_neg nofun, if_neg hslash, hpunctuation]
  simp only
  rw [hextensible]

/-- A class of characters that leaves out layout and all signs. -/
theorem inner_of_class {p : Char → Bool} (hc : p c = true)
    (hp : (" \t\r\n/(){},.-+;*!=<>".toList.all fun d => !p d) = true) :
    Inner c := by
  have hne : ∀ d ∈ " \t\r\n/(){},.-+;*!=<>".toList, c ≠ d := by
    intro d hd heq
    have hd' := List.all_eq_true.1 hp d hd
    rw [← heq, hc] at hd'
    cases hd'
  refine ⟨?_, hne '/' (by decide), ?_, ?_⟩
  · simp [isLayout, hne ' ' (by decide), hne '\t' (by decide),
      hne '\r' (by decide), hne '\n' (by decide)]
  · unfold punctuation?
    split <;> first | rfl | exact absurd rfl (hne _ (by decide))
  · unfold extensible?
    split <;> first | rfl | exact absurd rfl (hne _ (by decide))

/-- A string is taken up to its closing quote, newlines included. -/
theorem stringFront_of_contents {contents : List Char}
    (hcontents : ∀ d ∈ contents, d ≠ '"') :
    stringFront (contents ++ '"' :: rest)
      = .token .string (contents.length + 1) := by
  obtain ⟨hrun, -⟩ := takeWhile_of_run (p := (· != '"')) contents
    ('"' :: rest) (fun d hd => by simpa using hcontents d hd) (by simp)
  unfold stringFront
  simp only [hrun]
  rw [if_pos (by simp)]

/-- Digits are taken up to what is no digit, which must not be a point. -/
theorem numberFront_of_whole {digits : List Char} {first : Char}
    (hdigits : ∀ d ∈ digits, Text.isDigit d = true)
    (hnext : ∀ d ∈ rest.head?, Text.isDigit d = false)
    (hpoint : rest.head? ≠ some '.') :
    numberFront first (digits ++ rest) = .token .number digits.length := by
  obtain ⟨hrun, hrest⟩ := takeWhile_of_run digits rest hdigits hnext
  unfold numberFront
  simp only [hrun, hrest]
  split
  · exact absurd rfl hpoint
  · rfl

/-- Digits behind a point are taken too. -/
theorem numberFront_of_fraction {digits decimals : List Char} {first : Char}
    (hdigits : ∀ d ∈ digits, Text.isDigit d = true) (hsome : decimals ≠ [])
    (hdecimals : ∀ d ∈ decimals, Text.isDigit d = true)
    (hnext : ∀ d ∈ rest.head?, Text.isDigit d = false) :
    numberFront first (digits ++ '.' :: (decimals ++ rest))
      = .token .number (digits.length + 1 + decimals.length) := by
  obtain ⟨hrun, hrest⟩ := takeWhile_of_run digits
    ('.' :: (decimals ++ rest)) hdigits (by simp; decide)
  obtain ⟨hplaces, -⟩ := takeWhile_of_run decimals rest hdecimals hnext
  unfold numberFront
  simp only [hrun, hrest, hplaces]
  rw [if_neg (by simpa using hsome)]

/-- A word is taken as long as it goes on, and only then is it told whether it
is a keyword. -/
theorem wordFront_of_word {tail : List Char} {first : Char}
    (htail : ∀ d ∈ tail, continuesName d = true)
    (hnext : ∀ d ∈ rest.head?, continuesName d = false) :
    wordFront first (tail ++ rest)
      = .token (wordKind (String.ofList (first :: tail))) tail.length := by
  obtain ⟨hrun, -⟩ := takeWhile_of_run tail rest htail hnext
  unfold wordFront
  simp only [hrun]

/-- Punctuation is one character, whatever follows. -/
theorem front_of_punctuation (h : punctuation? c = some kind) :
    front c rest = .token kind 0 := by
  have hother : isLayout c = false ∧ c ≠ '/' := by
    unfold punctuation? at h
    split at h <;> first | decide | cases h
  rw [front, hother.1, if_neg nofun, if_neg hother.2, h]

/-- A sign that an equals sign may extend is extended by one that follows. -/
theorem front_of_extensible {alone extended : TokenKind}
    (h : extensible? c = some (alone, extended)) :
    front c rest
      = if rest.head? = some '=' then .token extended 1
        else .token alone 0 := by
  have hother : isLayout c = false ∧ c ≠ '/' ∧ punctuation? c = none := by
    unfold extensible? at h
    split at h <;> first | decide | cases h
  rw [front, hother.1, if_neg nofun, if_neg hother.2.1, hother.2.2]
  simp only
  rw [h]

/-- A class of characters without the quote tells them from it. -/
theorem ne_quote_of_class {p : Char → Bool} (hc : p c = true)
    (hp : p '"' = false) : c ≠ '"' := by
  intro heq
  rw [heq, hp] at hc
  cases hc

/-- The letters of ASCII stand behind its digits. -/
theorem le_toNat_of_isAlpha {c : Char} (h : c.isAlpha = true) :
    65 ≤ c.toNat := by
  delta Char.isAlpha Char.isUpper Char.isLower at h
  simp only [Bool.or_eq_true, Bool.and_eq_true, decide_eq_true_eq,
    ge_iff_le, UInt32.le_iff_toNat_le] at h
  rcases h with h | h
  · exact h.1
  · exact Nat.le_trans (by decide) h.1

/-- No name starts with a digit. -/
theorem isDigit_of_startsName (h : startsName c = true) :
    Text.isDigit c = false := by
  cases hdigit : Text.isDigit c with
  | false => rfl
  | true =>
    have hrange : 48 ≤ c.toNat ∧ c.toNat ≤ 57 := by
      simpa [Text.isDigit, Char.isDigit, UInt32.le_iff_toNat_le] using hdigit
    have hsmall : c.toNat < 128 := by omega
    have hletter : c.toNat = 95 ∨ 65 ≤ c.toNat := by
      rw [startsName, Text.isLetter, if_pos hsmall, Bool.or_eq_true,
        beq_iff_eq] at h
      rcases h with h | rfl
      · exact .inr (le_toNat_of_isAlpha h)
      · exact .inl rfl
    omega

/-- What is a token is one for the scanner. -/
theorem front_of_cuts {tail : List Char} (h : Cuts kind (c :: tail) rest) :
    front c (tail ++ rest) = .token kind tail.length := by
  have front_number {first : Char} {cs : List Char}
      (hfirst : Text.isDigit first = true) :
      front first cs = numberFront first cs := by
    rw [front_of_inner (inner_of_class hfirst (by decide)),
      if_neg (ne_quote_of_class hfirst (by decide)), if_pos hfirst]
  cases h with
  | slash hnext =>
    show front '/' rest = .token .slash 0
    unfold front
    rw [if_neg (by decide), if_pos rfl, if_neg hnext]
  | punctuation hkind => exact front_of_punctuation hkind
  | alone hkinds hnext =>
    rw [front_of_extensible hkinds]
    exact if_neg hnext
  | extended hkinds =>
    rw [front_of_extensible hkinds]
    exact if_pos rfl
  | string hcontents =>
    have hinner : Inner '"' := ⟨rfl, by decide, rfl, rfl⟩
    rw [front_of_inner hinner, if_pos rfl, List.append_assoc,
      List.singleton_append, stringFront_of_contents hcontents]
    simp
  | whole hfirst hdigits hnext hpoint =>
    rw [front_number hfirst, numberFront_of_whole hdigits hnext hpoint]
  | fraction hfirst hdigits hsome hdecimals hnext =>
    rw [front_number hfirst, List.append_assoc, List.cons_append,
      numberFront_of_fraction hdigits hsome hdecimals hnext]
    congr 1
    simp
    omega
  | word hfirst hmore hnext =>
    have hdigit : ¬ Text.isDigit c = true :=
      ne_true_of_eq_false (isDigit_of_startsName hfirst)
    rw [front_of_inner (inner_of_class hfirst (by decide)),
      if_neg (ne_quote_of_class hfirst (by decide)), if_neg hdigit,
      if_pos hfirst, wordFront_of_word hmore hnext]

-- ======================================================= between them

/-- The white space of the language. -/
def Blank (c : Char) : Prop := c = ' ' ∨ c = '\t' ∨ c = '\r' ∨ c = '\n'

/-- What lies in front of `after` and is no part of any token: white space
and comments, each of which runs up to a newline or to the end. -/
inductive Gap : List Char → List Char → Prop
  | none {after : List Char} : Gap [] after
  | blank {c : Char} {gap after : List Char} (hc : Blank c)
      (h : Gap gap after) : Gap (c :: gap) after
  | comment {text gap after : List Char} (hline : ∀ d ∈ text, d ≠ '\n')
      (hend : ∀ d ∈ (gap ++ after).head?, d = '\n') (h : Gap gap after) :
      Gap ('/' :: '/' :: text ++ gap) after

/-- The scanner passes over just these four characters. -/
theorem isLayout_iff : isLayout c = true ↔ Blank c := by
  simp [isLayout, Blank, or_assoc]

/-- Gaps one behind the other are a gap. Each is a gap in front of what stands
behind it, so a comment at the end of the first is over before the second. -/
theorem Gap.append {gap gap' after : List Char} (h : Gap gap (gap' ++ after))
    (h' : Gap gap' after) : Gap (gap ++ gap') after := by
  generalize hbehind : gap' ++ after = behind at h
  induction h with
  | none => exact h'
  | blank hc _ ih => exact .blank hc (ih hbehind)
  | comment hline hend _ ih =>
    rw [List.append_assoc]
    refine .comment hline ?_ (ih hbehind)
    rwa [List.append_assoc, hbehind]

/-- What the scanner skips is no part of a token. -/
theorem gap_of_front (h : front c rest = .skipped more) :
    Gap (c :: rest.take more) (rest.drop more) := by
  unfold front at h
  split at h
  · next hlayout =>
    cases h
    exact .blank (isLayout_iff.1 hlayout) .none
  split at h
  · next hslash =>
    subst hslash
    split at h
    · next hhead =>
      cases h
      obtain ⟨others, rfl⟩ := List.head?_eq_some_iff.1 hhead
      obtain ⟨text, behind, rfl, hrun, -, htext, hstop⟩ :=
        run_of_takeWhile (· != '\n') others
      -- The scanner runs over the second slash as well.
      have hline : ('/' :: (text ++ behind)).takeWhile (· != '\n')
          = '/' :: text := by
        rw [List.takeWhile_cons, if_pos (by decide), hrun]
      rw [hline, List.length_cons, List.take_succ_cons, List.drop_succ_cons,
        List.take_left, List.drop_left]
      rw [← List.append_nil ('/' :: '/' :: text)]
      exact .comment (fun d hd => by simpa using htext d hd)
        (fun d hd => by simpa using hstop d hd) .none
    · cases h
  -- Anything else makes a token or is at fault.
  split at h
  · cases h
  split at h
  · split at h <;> cases h
  split at h
  · unfold stringFront at h
    simp only at h
    split at h <;> cases h
  split at h
  · unfold numberFront at h
    simp only at h
    split at h
    · split at h <;> cases h
    · cases h
  split at h <;> cases h

/-- Nothing that is no part of a token changes what is found behind it. -/
theorem Gap.scanFrom {gap after : List Char} (h : Gap gap after)
    (p : Position) :
    scanFrom p (gap ++ after) = Lox.scanFrom (p.after gap) after := by
  induction h generalizing p with
  | none => rfl
  | @blank c gap after hc _ ih =>
    have hfront : front c (gap ++ after) = .skipped 0 := by
      rw [front, if_pos (isLayout_iff.2 hc)]
    rw [List.cons_append, Lox.scanFrom, hfront]
    exact ih _
  | @comment text gap after hline hend _ ih =>
    obtain ⟨hrun, -⟩ := takeWhile_of_run (p := (· != '\n'))
      ('/' :: text) (gap ++ after)
      (by simpa using hline) (by simpa using hend)
    have hfront : front '/' ('/' :: text ++ (gap ++ after))
        = .skipped ('/' :: text).length := by
      have hhead : ('/' :: text ++ (gap ++ after)).head? = some '/' := rfl
      unfold front
      rw [if_neg (by decide), if_pos rfl, if_pos hhead, hrun]
    rw [List.cons_append, List.cons_append, List.append_assoc,
      Lox.scanFrom, ← List.cons_append, hfront]
    simp only
    rw [List.take_left, List.drop_left, ih, ← Position.after_append,
      List.cons_append]

-- ============================================================== the scan

/-- How a text that starts at `p` is made of tokens, gaps and its end. -/
inductive Scans : Position → List Char → List Token → Token → Prop
  | done {p : Position} : Scans p [] [] ⟨.endOfText, "", p⟩
  | gap {p : Position} {gap rest : List Char} {ts : List Token} {eof : Token}
      (hgap : Gap gap rest) (h : Scans (p.after gap) rest ts eof) :
      Scans p (gap ++ rest) ts eof
  | token {p : Position} {kind : TokenKind} {lexeme rest : List Char}
      {ts : List Token} {eof : Token} (hcuts : Cuts kind lexeme rest)
      (h : Scans (p.after lexeme) rest ts eof) :
      Scans p (lexeme ++ rest) (⟨kind, String.ofList lexeme, p⟩ :: ts) eof

/-- No token is empty. -/
theorem Cuts.ne_nil {lexeme : List Char} (h : Cuts kind lexeme rest) :
    lexeme ≠ [] := by
  cases h <;> exact List.cons_ne_nil _ _

/-- The scanner takes a token off a text. -/
theorem Cuts.scanFrom {lexeme : List Char} (h : Cuts kind lexeme rest)
    (p : Position) :
    scanFrom p (lexeme ++ rest) = (Lox.scanFrom (p.after lexeme) rest).map
      (⟨kind, String.ofList lexeme, p⟩ :: ·) := by
  obtain ⟨c, tail, rfl⟩ := List.exists_cons_of_ne_nil h.ne_nil
  rw [List.cons_append, Lox.scanFrom, front_of_cuts h]
  simp only [List.take_left, List.drop_left]

/-- What can be cut into tokens is what the scanner cuts. -/
theorem Scans.scanFrom {p : Position} {cs : List Char} {ts : List Token}
    {eof : Token} (h : Scans p cs ts eof) :
    scanFrom p cs = .ok (ts ++ [eof]) := by
  induction h with
  | done => rw [Lox.scanFrom]; rfl
  | gap hgap _ ih => rw [hgap.scanFrom, ih]
  | token hcuts _ ih =>
    rw [hcuts.scanFrom, ih]
    rfl

/-- Every scan without a fault takes a text apart like that. -/
theorem scans_of_scanFrom (p : Position) (cs : List Char)
    {tokens : List Token} (h : scanFrom p cs = .ok tokens) :
    ∃ ts eof, tokens = ts ++ [eof] ∧ Scans p cs ts eof := by
  fun_induction scanFrom p cs generalizing tokens with
  | case1 p =>
    cases h
    exact ⟨[], _, rfl, .done⟩
  | case2 p c rest more hfront ih =>
    obtain ⟨ts, eof, rfl, hscans⟩ := ih h
    have hscans' := hscans.gap (gap_of_front hfront)
    rw [List.cons_append, List.take_append_drop] at hscans'
    exact ⟨ts, eof, rfl, hscans'⟩
  | case3 p c rest kind more hfront ih =>
    cases hothers : scanFrom (p.after (c :: rest.take more))
        (rest.drop more) with
    | error e =>
      rw [hothers] at h
      cases h
    | ok others =>
    rw [hothers] at h
    cases h
    obtain ⟨ts, eof, rfl, hscans⟩ := ih hothers
    have hscans' := hscans.token (cuts_of_front hfront)
    rw [List.cons_append, List.take_append_drop] at hscans'
    exact ⟨_ :: ts, eof, rfl, hscans'⟩
  | case4 => cases h

end Lox
