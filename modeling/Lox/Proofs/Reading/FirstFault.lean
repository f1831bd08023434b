/-
Where a scan stops. A text that cannot be scanned has a first fault: what
is before it can be scanned, to the tokens that were found there, and what
stands at it is one of three things, a string that nothing closes, a
number that breaks off behind its point, or a character that begins
nothing (`Faulty`). Where one of them stands behind a text that can be
scanned, and is neither a part of a comment nor of the token before it,
the scan stops there and nowhere else (`scan_stops_at_fault`).

# How it is shown

`ScansTo p cs ts q rest` is a scan on its way: the parts of the text that
it has passed, each cut off with all the rest still behind it. A part
depends on the next character alone. So the way can be cut off at its end,
which gives the text before the fault (`ScansTo.cut`); and it can be gone
on with if what follows makes the last part no longer (`Scans.onward`).
-/
import Mathlib.Data.List.Infix
import Lox.Proofs.Reading.Lossless

namespace Lox

-- ============================================================ statements

/-- The tokens that are found before the first fault, or before the end. -/
def scannedFrom (p : Position) : List Char → List Token
  | [] => []
  | c :: rest =>
    match front c rest with
    | .skipped more =>
        scannedFrom (p.after (c :: rest.take more)) (rest.drop more)
    | .token kind more =>
        ⟨kind, String.ofList (c :: rest.take more), p⟩
          :: scannedFrom (p.after (c :: rest.take more)) (rest.drop more)
    | .fault _ => []
termination_by cs => cs.length
decreasing_by all_goals simp only [List.length_drop, List.length_cons]; omega

/-- The tokens that are found in a program text before its first fault. -/
def scanned (source : String) : List Token :=
  scannedFrom .start source.toList

/-- A character with which neither a token begins nor what stands between
tokens. -/
structure StartsNothing (c : Char) : Prop where
  letter : Text.isLetter c = false
  line : c ≠ '_'
  digit : Text.isDigit c = false
  quote : c ≠ '"'
  blank : ¬ Blank c
  /-- Nor is it an operator or a part of one, or punctuation. -/
  sign : c ∉ "(){},.-+;*/!=<>".toList

/-- At the front of the text there is a fault. -/
inductive Faulty : List Char → ScanFault → Prop
  /-- A quote with no other behind it. -/
  | string {contents : List Char} (hopen : '"' ∉ contents) :
      Faulty ('"' :: contents) (.unterminatedString (String.ofList contents))
  /-- Digits and a point with no digit behind it. -/
  | number {first : Char} {digits after : List Char}
      (hfirst : Text.isDigit first = true)
      (hdigits : ∀ d ∈ digits, Text.isDigit d = true)
      (hnext : ∀ d ∈ after.head?, Text.isDigit d = false) :
      Faulty (first :: (digits ++ '.' :: after))
        (.unterminatedNumber (String.ofList (first :: digits ++ ['.'])))
  | character {c : Char} {rest : List Char} (h : StartsNothing c) :
      Faulty (c :: rest) (.unexpectedCharacter c)

/-- Where the last of some tokens ends, or where they would begin. -/
def tokensEnd (start : Nat) : List Token → Nat
  | [] => start
  | t :: ts => tokensEnd (t.pos.offset + t.length) ts

/-- In this text, which has no tokens, a comment has been begun and not
been ended by a newline. -/
def EndsInComment (cs : List Char) : Prop :=
  ∃ comment ∈ cs.tails, ['/', '/'] <+: comment ∧ '\n' ∉ comment

instance (cs : List Char) : Decidable (EndsInComment cs) :=
  inferInstanceAs (Decidable (∃ comment ∈ cs.tails, _))

-- ================================================================ faults

/-- The signs of the language begin something. -/
theorem StartsNothing.signless {c : Char} (h : StartsNothing c) :
    Inner c := by
  have hlayout : isLayout c = false := by
    rw [Bool.eq_false_iff, ne_eq, isLayout_iff]
    exact h.blank
  have hne : ∀ d ∈ "(){},.-+;*/!=<>".toList, c ≠ d := by
    rintro d hd rfl
    exact h.sign hd
  refine ⟨hlayout, hne '/' (by decide), ?_, ?_⟩
  · unfold punctuation?
    split <;> first | rfl | exact absurd rfl (hne _ (by decide))
  · unfold extensible?
    split <;> first | rfl | exact absurd rfl (hne _ (by decide))

theorem faulty_of_stringFront {rest : List Char} {fault : ScanFault}
    (h : stringFront rest = .fault fault) : Faulty ('"' :: rest) fault := by
  obtain ⟨contents, others, rfl, hrun, -, hcontents, -⟩ :=
    run_of_takeWhile (· != '"') rest
  unfold stringFront at h
  simp only [hrun] at h
  split at h
  · cases h
  · next hopen =>
    cases h
    obtain rfl : others = [] := by
      simpa [Nat.pos_iff_ne_zero] using hopen
    rw [List.append_nil]
    exact .string fun hquote => by simpa using hcontents _ hquote

theorem faulty_of_numberFront {first : Char} {rest : List Char}
    {fault : ScanFault} (hfirst : Text.isDigit first = true)
    (h : numberFront first rest = .fault fault) :
    Faulty (first :: rest) fault := by
  obtain ⟨digits, others, rfl, hrun, hothers, hdigits, -⟩ :=
    run_of_takeWhile Text.isDigit rest
  unfold numberFront at h
  simp only [hrun, hothers] at h
  split at h
  · next after =>
    obtain ⟨decimals, others, rfl, hrun', -, -, hstop⟩ :=
      run_of_takeWhile Text.isDigit after
    rw [hrun'] at h
    split at h
    · next hnone =>
      cases h
      obtain rfl := List.isEmpty_iff.1 hnone
      exact .number hfirst hdigits hstop
    · cases h
  · cases h

/-- What the scanner refuses is a fault. -/
theorem faulty_of_front {c : Char} {rest : List Char} {fault : ScanFault}
    (h : front c rest = .fault fault) : Faulty (c :: rest) fault := by
  unfold front at h
  split at h
  · cases h
  next hlayout =>
  split at h
  · split at h <;> cases h
  next hslash =>
  split at h
  · cases h
  next hpunctuation =>
  split at h
  · split at h <;> cases h
  next hextensible =>
  split at h
  · next hquote =>
    subst hquote
    exact faulty_of_stringFront h
  next hquote =>
  split at h
  · next hdigit => exact faulty_of_numberFront hdigit h
  next hdigit =>
  split at h
  · cases h
  next hstarts =>
  cases h
  rw [startsName, Bool.or_eq_true, not_or, beq_iff_eq] at hstarts
  refine .character
    { letter := Bool.eq_false_iff.2 hstarts.1
      line := hstarts.2
      digit := Bool.eq_false_iff.2 hdigit
      quote := hquote
      blank := fun hblank => hlayout (isLayout_iff.2 hblank)
      sign := fun hsign => ?_ }
  -- every sign is a slash, punctuation or one that may get longer
  have hsigns : ("(){},.-+;*/!=<>".toList.all fun d => d == '/'
      || (punctuation? d).isSome || (extensible? d).isSome) = true := by
    decide
  have hcovered := List.all_eq_true.1 hsigns c hsign
  simp [hslash, hpunctuation, hextensible] at hcovered

/-- A fault is refused by the scanner. -/
theorem front_of_faulty {c : Char} {rest : List Char} {fault : ScanFault}
    (h : Faulty (c :: rest) fault) : front c rest = .fault fault := by
  cases h with
  | string hopen =>
    have hinner : Inner '"' := ⟨rfl, by decide, rfl, rfl⟩
    obtain ⟨hall, -⟩ := takeWhile_of_run (p := (· != '"')) rest []
      (fun d hd => by
        rw [bne_iff_ne]
        rintro rfl
        exact hopen hd) (by simp)
    rw [List.append_nil] at hall
    rw [front_of_inner hinner, if_pos rfl]
    unfold stringFront
    simp only [hall]
    exact if_neg (Nat.lt_irrefl _)
  | @number _ digits after hfirst hdigits hnext =>
    obtain ⟨hrun, hrest⟩ := takeWhile_of_run digits ('.' :: after) hdigits
      (by simp; decide)
    obtain ⟨hnone, -⟩ := takeWhile_of_run [] after (by simp) hnext
    rw [List.nil_append] at hnone
    rw [front_of_inner (inner_of_class hfirst (by decide)),
      if_neg (ne_quote_of_class hfirst (by decide)), if_pos hfirst]
    unfold numberFront
    simp only [hrun, hrest, hnone]
    rfl
  | character h =>
    have hdigit : ¬ Text.isDigit c = true := Bool.eq_false_iff.1 h.digit
    have hstarts : ¬ startsName c = true := by
      rw [startsName, h.letter, Bool.false_or, beq_iff_eq]
      exact h.line
    rw [front_of_inner h.signless, if_neg h.quote, if_neg hdigit,
      if_neg hstarts]

/-- At most one fault is at the front of a text, and the scanner finds
it. -/
theorem Faulty.iff_eq {cs : List Char} {fault : ScanFault}
    (h : Faulty cs fault) (fault' : ScanFault) :
    Faulty cs fault' ↔ fault' = fault := by
  constructor
  · intro h'
    cases cs with
    | nil => cases h
    | cons c rest =>
      have heq := front_of_faulty h'
      rw [front_of_faulty h] at heq
      cases heq
      rfl
  · rintro rfl
    exact h

-- ========================================================= longest tokens

/-- What makes no token longer, as a test of the next character. -/
theorem Token.longest_iff {t : Token} {next : Option Char} :
    t.Longest next ↔
      (t.kind.isWord = true →
          next.all (fun c => !Text.isAlphanumeric c && c != '_') = true) ∧
        (t.kind = .number → next.all (!Text.isDigit ·) = true) ∧
        (t.kind = .number → '.' ∉ t.lexeme.toList → next ≠ some '.') ∧
        (t.kind ∈ [.bang, .equal, .less, .greater] → next ≠ some '=') ∧
        (t.kind = .slash → next ≠ some '/') := by
  simp only [Option.all_eq_true, Bool.and_eq_true, Bool.not_eq_true',
    bne_iff_ne]
  constructor
  · intro h
    exact ⟨h.word, h.number, h.fraction, h.sign, h.slash⟩
  · rintro ⟨word, number, fraction, sign, slash⟩
    exact ⟨word, number, fraction, sign, slash⟩

instance (t : Token) (next : Option Char) : Decidable (t.Longest next) :=
  decidable_of_iff' _ Token.longest_iff

theorem Token.longest_none (t : Token) : t.Longest none :=
  ⟨by simp, by simp, by simp, by simp, by simp⟩

theorem longest_of_isPrefix {t : Token} {cs cs' : List Char}
    (h : t.Longest cs'.head?) (hle : cs <+: cs') : t.Longest cs.head? := by
  cases cs with
  | nil => exact t.longest_none
  | cons c cs =>
    obtain ⟨more, rfl⟩ := hle
    exact h

/-- A token can be cut off every text that does not make it longer. -/
theorem Cuts.before {kind : TokenKind} {lexeme rest after : List Char}
    {p : Position} (h : Cuts kind lexeme rest)
    (hlongest : Token.Longest ⟨kind, String.ofList lexeme, p⟩ after.head?) :
    Cuts kind lexeme after := by
  cases h with
  | slash => exact .slash (hlongest.slash rfl)
  | punctuation hkind => exact .punctuation hkind
  | alone hkinds =>
    refine .alone hkinds (hlongest.sign ?_)
    unfold extensible? at hkinds
    split at hkinds <;> cases hkinds <;> simp
  | extended hkinds => exact .extended hkinds
  | string hcontents => exact .string hcontents
  | @whole first digits _ hfirst hdigits =>
    have hall : ∀ d ∈ first :: digits, Text.isDigit d = true :=
      List.forall_mem_cons.2 ⟨hfirst, hdigits⟩
    refine .whole hfirst hdigits (hlongest.number rfl)
      (hlongest.fraction rfl fun hpoint => ?_)
    rw [String.toList_ofList] at hpoint
    exact absurd (hall '.' hpoint) (by decide)
  | fraction hfirst hdigits hsome hdecimals =>
    exact .fraction hfirst hdigits hsome hdecimals (hlongest.number rfl)
  | word hfirst hmore =>
    refine .word hfirst hmore fun d hd => ?_
    obtain ⟨halnum, hline⟩ := hlongest.word (isWord_wordKind _) d hd
    simp [continuesName, halnum, hline]

/-- What makes no token longer in a text makes none longer in the text up
to some place. -/
theorem Cuts.ofPrefix {kind : TokenKind} {lexeme rest more : List Char}
    (h : Cuts kind lexeme (rest ++ more)) : Cuts kind lexeme rest :=
  h.before (p := .start)
    (longest_of_isPrefix (h.longest _) (List.prefix_append _ _))

theorem Gap.ofPrefix {gap rest more : List Char}
    (h : Gap gap (rest ++ more)) : Gap gap rest := by
  generalize hafter : rest ++ more = after at h
  induction h with
  | none => exact .none
  | blank hc _ ih => exact .blank hc (ih hafter)
  | @comment text gap after hline hend _ ih =>
    subst hafter
    refine .comment hline (fun d hd => hend d ?_) (ih rfl)
    rw [← List.append_assoc, List.head?_append, Option.mem_def.1 hd]
    rfl

theorem EndsInComment.behind {cs : List Char} (h : EndsInComment cs)
    (gap : List Char) : EndsInComment (gap ++ cs) := by
  obtain ⟨comment, hcomment, hopen⟩ := h
  rw [List.mem_tails] at hcomment
  exact ⟨comment, (List.mem_tails _ _).2
    (hcomment.trans (List.suffix_append _ _)), hopen⟩

/-- A gap is one also in front of a longer text, if no comment is open at
the end. -/
theorem Gap.onward {gap rest more : List Char} (h : Gap gap rest)
    (hclosed : rest = [] → ¬ EndsInComment gap) : Gap gap (rest ++ more) := by
  induction h with
  | none => exact .none
  | @blank c gap rest hc _ ih =>
    exact .blank hc (ih fun hend hopen => hclosed hend (hopen.behind [c]))
  | @comment text gap rest hline hend _ ih =>
    refine .comment hline (fun d hd => hend d ?_) (ih fun hlast hopen =>
      hclosed hlast (hopen.behind ('/' :: '/' :: text)))
    cases hnext : gap ++ rest with
    | nil =>
      obtain ⟨rfl, rfl⟩ := List.append_eq_nil_iff.1 hnext
      refine absurd ⟨'/' :: '/' :: text, ?_, ⟨text, rfl⟩, ?_⟩ (hclosed rfl)
      · simp
      · simpa using fun hmem => hline _ hmem rfl
    | cons c others =>
      rw [← List.append_assoc, hnext] at hd
      exact hd

-- ============================================================== scanning

/-- The scan from one place to another, with the tokens found between:
each part of the text with all that follows behind it. -/
inductive ScansTo : Position → List Char → List Token → Position →
    List Char → Prop
  | here {p : Position} {rest : List Char} : ScansTo p rest [] p rest
  | gap {p q : Position} {gap cs rest : List Char} {ts : List Token}
      (hgap : Gap gap cs) (h : ScansTo (p.after gap) cs ts q rest) :
      ScansTo p (gap ++ cs) ts q rest
  | token {p q : Position} {kind : TokenKind} {lexeme cs rest : List Char}
      {ts : List Token} (hcuts : Cuts kind lexeme cs)
      (h : ScansTo (p.after lexeme) cs ts q rest) :
      ScansTo p (lexeme ++ cs) (⟨kind, String.ofList lexeme, p⟩ :: ts) q rest

/-- A scan comes to the end of the text or to a fault. -/
theorem exists_scansTo (p : Position) (cs : List Char) : ∃ q rest,
    ScansTo p cs (scannedFrom p cs) q rest ∧
      (rest = [] ∨ ∃ fault, Faulty rest fault) := by
  fun_induction scannedFrom p cs with
  | case1 p => exact ⟨p, [], .here, .inl rfl⟩
  | case2 p c rest more hfront ih =>
    obtain ⟨q, left, hway, hstop⟩ := ih
    have hway' := hway.gap (gap_of_front hfront)
    rw [List.cons_append, List.take_append_drop] at hway'
    exact ⟨q, left, hway', hstop⟩
  | case3 p c rest kind more hfront ih =>
    obtain ⟨q, left, hway, hstop⟩ := ih
    have hway' := hway.token (cuts_of_front hfront)
    rw [List.cons_append, List.take_append_drop] at hway'
    exact ⟨q, left, hway', hstop⟩
  | case4 p c rest fault hfront =>
    exact ⟨p, c :: rest, .here, .inr ⟨fault, faulty_of_front hfront⟩⟩

namespace ScansTo

variable {p q : Position} {cs rest : List Char} {ts : List Token}
  {fault : ScanFault}

/-- The text that a scan has passed can be scanned, to the tokens that were
found in it. -/
theorem cut (h : ScansTo p cs ts q rest) : ∃ passed, cs = passed ++ rest ∧
    q = p.after passed ∧ Scans p passed ts ⟨.endOfText, "", q⟩ := by
  induction h with
  | here => exact ⟨[], rfl, rfl, .done⟩
  | @gap p q gap cs rest ts hgap _ ih =>
    obtain ⟨passed, rfl, rfl, hscans⟩ := ih
    refine ⟨gap ++ passed, (List.append_assoc _ _ _).symm, ?_,
      hscans.gap hgap.ofPrefix⟩
    rw [Position.after_append]
  | @token p q kind lexeme cs rest ts hcuts _ ih =>
    obtain ⟨passed, rfl, rfl, hscans⟩ := ih
    refine ⟨lexeme ++ passed, (List.append_assoc _ _ _).symm, ?_,
      hscans.token hcuts.ofPrefix⟩
    rw [Position.after_append]

/-- A scan that comes to a fault stops there. -/
theorem scanFrom_of_faulty (h : ScansTo p cs ts q rest)
    (hfault : Faulty rest fault) : scanFrom p cs = .error ⟨fault, q⟩ := by
  induction h with
  | @here p rest =>
    cases rest with
    | nil => cases hfault
    | cons c rest => rw [scanFrom, front_of_faulty hfault]
  | gap hgap _ ih => rw [hgap.scanFrom, ih hfault]
  | token hcuts _ ih =>
    rw [hcuts.scanFrom, ih hfault]
    rfl

/-- A scan that comes to the end of the text has found all its tokens. -/
theorem scanFrom_of_end (h : ScansTo p cs ts q rest) (hend : rest = []) :
    scanFrom p cs = .ok (ts ++ [⟨.endOfText, "", q⟩]) := by
  obtain ⟨passed, rfl, rfl, hscans⟩ := h.cut
  rw [hend, List.append_nil]
  exact hscans.scanFrom

end ScansTo

/-- The fault at which a scan stops is where it came to. -/
theorem scansTo_of_error {p : Position} {cs : List Char} {e : ScanError}
    (h : scanFrom p cs = .error e) : ∃ rest,
      ScansTo p cs (scannedFrom p cs) e.pos rest ∧ Faulty rest e.fault := by
  obtain ⟨q, rest, hway, hend | ⟨fault, hfault⟩⟩ := exists_scansTo p cs
  · rw [hway.scanFrom_of_end hend] at h
    cases h
  · rw [hway.scanFrom_of_faulty hfault] at h
    cases h
    exact ⟨rest, hway, hfault⟩

/-- In an empty text no token is found. -/
theorem Scans.tokens_of_nil {p : Position} {ts : List Token} {eof : Token}
    (h : Scans p [] ts eof) : ts = [] := by
  generalize hcs : ([] : List Char) = cs at h
  induction h with
  | done => rfl
  | gap _ _ ih => exact ih (List.append_eq_nil_iff.1 hcs.symm).2.symm
  | token hcuts =>
    exact absurd (List.append_eq_nil_iff.1 hcs.symm).1 hcuts.ne_nil

/-- A text that can be scanned is scanned also in front of another one,
unless a comment is open at its end or its last token is made longer. -/
theorem Scans.onward {p : Position} {cs : List Char} {ts : List Token}
    {eof : Token} (h : Scans p cs ts eof) (rest before : List Char)
    (hp : p = Position.start.after before)
    (hclosed : ¬ EndsInComment
      ((before ++ cs).drop (tokensEnd before.length ts)))
    (hlongest : ∀ t ∈ ts, t.pos.offset + t.length = (before ++ cs).length →
      t.Longest rest.head?) : ScansTo p (cs ++ rest) ts eof.pos rest := by
  induction h generalizing before with
  | done => exact .here
  | @gap p gap cs ts eof hgap h ih =>
    have hp' : p.after gap = Position.start.after (before ++ gap) := by
      rw [Position.after_append, ← hp]
    rw [← List.append_assoc before] at hclosed hlongest
    rw [List.append_assoc]
    -- without a token behind it, the gap is the last thing in the text
    refine .gap (hgap.onward fun hend hopen => ?_)
      (ih (before ++ gap) hp' (fun hopen => ?_) hlongest)
    · subst hend
      rw [h.tokens_of_nil, tokensEnd, List.append_nil,
        List.drop_left] at hclosed
      exact hclosed hopen
    · cases ts with
      | nil =>
        rw [tokensEnd, List.drop_left] at hopen
        rw [tokensEnd, List.append_assoc, List.drop_left] at hclosed
        exact hclosed (hopen.behind gap)
      | cons => exact hclosed hopen
  | @token p kind lexeme cs ts eof hcuts h ih =>
    have hp' : p.after lexeme = Position.start.after (before ++ lexeme) := by
      rw [Position.after_append, ← hp]
    rw [← List.append_assoc before] at hclosed hlongest
    rw [List.append_assoc]
    obtain ⟨hfirst, hothers⟩ := List.forall_mem_cons.1 hlongest
    subst hp
    have hend : tokensEnd before.length
        (⟨kind, String.ofList lexeme, .after .start before⟩ :: ts)
        = tokensEnd (before ++ lexeme).length ts := by
      simp only [tokensEnd, Token.length, offset_after_start,
        String.length_ofList, List.length_append]
    rw [hend] at hclosed
    refine .token ?_ (ih (before ++ lexeme) hp' hclosed hothers)
    cases cs with
    | nil =>
      refine hcuts.before (p := .after .start before) (hfirst ?_)
      simp [Token.length, offset_after_start]
    | cons c cs => exact hcuts.before (p := .start) (hcuts.longest _)

-- ============================================================ the theorem

/-- A scan stops at the first fault of a text, and at nothing else. What is
before it can be scanned, to the tokens that were found there; the fault
has the place at which it stands, and it is what stands there. And where
what stands behind a text that can be scanned is a fault, a scan stops
there, if neither a comment goes on nor the token before. -/
theorem scan_stops_at_fault (source : String) :
    (∀ e, scan source = .error e →
      scan (String.ofList (source.toList.take e.pos.offset))
          = .ok (scanned source ++ [⟨.endOfText, "", e.pos⟩]) ∧
        e.pos.Counts (source.toList.take e.pos.offset) ∧
        ∀ fault, Faulty (source.toList.drop e.pos.offset) fault
          ↔ fault = e.fault) ∧
      ∀ offset fault ts eof,
        Faulty (source.toList.drop offset) fault →
        scan (String.ofList (source.toList.take offset))
          = .ok (ts ++ [eof]) →
        ¬ EndsInComment
          ((source.toList.take offset).drop (tokensEnd 0 ts)) →
        (∀ t ∈ ts, t.pos.offset + t.length = offset →
          t.Longest source.toList[offset]?) →
        scan source = .error ⟨fault, eof.pos⟩ ∧ eof.pos.offset = offset ∧
          eof.pos.Counts (source.toList.take offset) := by
  constructor
  · intro e hscan
    obtain ⟨rest, hway, hfault⟩ := scansTo_of_error hscan
    obtain ⟨passed, hpassed, hpos, hscans⟩ := hway.cut
    have hoffset : e.pos.offset = passed.length := by
      rw [hpos, offset_after_start]
    rw [hpassed, hoffset, List.take_left, List.drop_left]
    refine ⟨?_, ?_, hfault.iff_eq⟩
    · rw [scan, String.toList_ofList]
      exact hscans.scanFrom
    · rw [hpos]
      exact Position.counts_after passed
  · intro offset fault ts eof hfault hscan hclosed hlongest
    rw [scan, String.toList_ofList] at hscan
    obtain ⟨ts', eof', heq, hscans⟩ := scans_of_scanFrom _ _ hscan
    obtain ⟨rfl, heof⟩ := List.append_inj' heq rfl
    obtain rfl := List.head_eq_of_cons_eq heof
    have hlossless := hscans.lossless [] rfl
    have hend := hlossless.ends.2.2
    have hplaced := hlossless.placed eof (by simp)
    rw [hend, List.nil_append, List.take_length] at hplaced
    have hlength : (source.toList.take offset).length = offset := by
      rw [List.length_take, Nat.min_eq_left]
      -- A fault has a character to stand at.
      refine Nat.le_of_lt (Nat.lt_of_not_le fun hle => ?_)
      rw [List.drop_eq_nil_of_le hle] at hfault
      cases hfault
    -- The tokens go on up to the fault, where the scan stops.
    have hway := hscans.onward (source.toList.drop offset) [] rfl hclosed
      fun t ht hlast => by
        rw [List.head?_drop]
        exact hlongest t ht (hlast.trans hlength)
    rw [List.take_append_drop] at hway
    exact ⟨hway.scanFrom_of_faulty hfault, hend.trans hlength, hplaced⟩

/-- A number that breaks off in the second line, behind a comment with a
quote in it. -/
theorem scan_stops_at_fault_behindComment :
    let source := "a1 // \"\n2.b"
    let name : Token := ⟨.identifier, "a1", ⟨1, 1, 0⟩⟩
    let eof : Token := ⟨.endOfText, "", ⟨2, 1, 8⟩⟩
    let fault : ScanFault := .unterminatedNumber "2."
    Faulty (source.toList.drop 8) fault ∧
      scan (String.ofList (source.toList.take 8)) = .ok ([name] ++ [eof]) ∧
      ¬ EndsInComment ((source.toList.take 8).drop (tokensEnd 0 [name])) ∧
      (∀ t ∈ [name], t.pos.offset + t.length = 8 →
        t.Longest source.toList[8]?) ∧
      scan source = .error ⟨fault, eof.pos⟩ ∧
      scanned source = [name] := by
  intro source name eof fault
  have hbreaks : source.toList.drop 8 = '2' :: ([] ++ '.' :: ['b']) := by
    decide
  have hfault : Faulty (source.toList.drop 8) fault := by
    rw [hbreaks]
    exact .number (by decide) (by simp) (by simp; decide)
  have hscan : scan (String.ofList (source.toList.take 8))
      = .ok ([name] ++ [eof]) := by
    decide +kernel
  have hclosed : ¬ EndsInComment
      ((source.toList.take 8).drop (tokensEnd 0 [name])) := by
    decide
  have hlongest : ∀ t ∈ [name], t.pos.offset + t.length = 8 →
      t.Longest source.toList[8]? := by
    decide
  obtain ⟨hstop, -, -⟩ :=
    (scan_stops_at_fault source).2 8 fault _ _ hfault hscan hclosed hlongest
  obtain ⟨hbefore, -, -⟩ := (scan_stops_at_fault source).1 _ hstop
  have hfound : ([name] ++ [eof] : List Token) = scanned source ++ [eof] :=
    Except.ok.inj (hscan.symm.trans hbefore)
  exact ⟨hfault, hscan, hclosed, hlongest, hstop,
    (List.append_cancel_right hfound).symm⟩

end Lox
