/-
The return key and the characters that cannot be seen. The key judges a
text as it stands, and what is run is the text without these characters.
Both come to the same as long as the scanner takes no notice of them: none
of them is refused, and nothing that they keep apart would grow together
without them (`Unnoticed`). So it is where they stand in strings and in
comments, and where a carriage return stands before a newline. Where one
of them is refused, the text is submitted whatever is open in it
(`return_judges_unnoticed`).

# How it is shown

The two texts are taken apart side by side. What stands between tokens
still does without these characters (`Gap.visible`), and a token is one
still, of its kind, because they are in no token but a string, and a token
depends on the next character alone (`Cuts.visible`). So the scan of the
one text goes along with that of the other (`ScansTo.visible`), and both
stop at the same fault or at the end (`Faulty.visible`). The test for more
looks at kinds only.
-/
import Lox.Proofs.Console.Continuation
import Lox.Proofs.Console.Inputs
import Lox.Proofs.Reading.FirstFault

namespace Lox

open Console (isInvisible)

-- ============================================================ statements

/-- What can be seen of some characters. -/
def seen (cs : List Char) : List Char := cs.filter (!isInvisible ·)

namespace Console

/-- Of the characters in a text that cannot be seen, the scanner takes no
notice. -/
structure Unnoticed (text : String) : Prop where
  /-- It does not refuse one. -/
  refused : ∀ c p,
    scan text = .error ⟨.unexpectedCharacter c, p⟩ → isInvisible c = false
  /-- Without them, a number that breaks off still does. -/
  number : ∀ spelling p,
    scan text = .error ⟨.unterminatedNumber spelling, p⟩ →
      ∀ d ∈ (seen (text.toList.drop (p.offset + spelling.length))).head?,
        Text.isDigit d = false
  /-- Without them, no token is longer. -/
  token : ∀ t ∈ scanned text,
    t.Longest (seen (text.toList.drop (t.pos.offset + t.length))).head?

end Console

-- ==================================================== what cannot be seen

@[simp] theorem seen_append (cs cs' : List Char) :
    seen (cs ++ cs') = seen cs ++ seen cs' :=
  List.filter_append ..

@[simp] theorem seen_cons {c : Char} (hc : isInvisible c = false)
    (cs : List Char) : seen (c :: cs) = c :: seen cs :=
  List.filter_cons_of_pos (by rw [hc]; rfl)

theorem seen_eq_self {cs : List Char}
    (h : ∀ c ∈ cs, isInvisible c = false) : seen cs = cs :=
  List.filter_eq_self.2 fun c hc => by rw [h c hc]; rfl

theorem mem_of_mem_seen {c : Char} {cs : List Char} (h : c ∈ seen cs) :
    c ∈ cs :=
  (List.mem_filter.1 h).1

/-- A class of characters that leaves out what cannot be seen. -/
theorem isInvisible_of_class {p : Char → Bool} {c : Char} (hc : p c = true)
    (hp : (['\u200b', '\u200c', '\u200d', '\ufeff', '\u00a0', '\r'].all
      fun d => !p d) = true) : isInvisible c = false := by
  rw [Bool.eq_false_iff]
  intro hinvisible
  have hmem : c ∈ ['\u200b', '\u200c', '\u200d', '\ufeff', '\u00a0',
      '\r'] := by
    simpa [isInvisible, or_assoc] using hinvisible
  have hnot := List.all_eq_true.1 hp c hmem
  rw [hc] at hnot
  cases hnot

theorem isInvisible_of_isDigit {c : Char} (h : Text.isDigit c = true) :
    isInvisible c = false :=
  isInvisible_of_class h (by decide +kernel)

theorem isInvisible_of_startsName {c : Char} (h : startsName c = true) :
    isInvisible c = false :=
  isInvisible_of_class h (by decide +kernel)

theorem isInvisible_of_continuesName {c : Char}
    (h : continuesName c = true) : isInvisible c = false :=
  isInvisible_of_class h (by decide +kernel)

theorem isInvisible_of_sign {c : Char} {kinds : TokenKind × TokenKind}
    (h : extensible? c = some kinds) : isInvisible c = false :=
  isInvisible_of_class (p := fun d => (extensible? d).isSome)
    (by rw [h]; rfl) (by decide +kernel)

-- ================================================================= tokens

/-- Nothing that cannot be seen is a part of a token, unless it is a
string. -/
theorem Cuts.string_or_visible {kind : TokenKind} {lexeme rest : List Char}
    (h : Cuts kind lexeme rest) :
    (∃ contents, kind = .string ∧ lexeme = '"' :: (contents ++ ['"']) ∧
        ∀ d ∈ contents, d ≠ '"') ∨
      ∀ c ∈ lexeme, isInvisible c = false := by
  cases h with
  | string hcontents => exact .inl ⟨_, rfl, rfl, hcontents⟩
  | slash => exact .inr (List.forall_mem_singleton.2 rfl)
  | punctuation hkind =>
    exact .inr (List.forall_mem_singleton.2
      (isInvisible_of_class (p := fun d => (punctuation? d).isSome)
        (by rw [hkind]; rfl) (by decide +kernel)))
  | alone hkinds =>
    exact .inr (List.forall_mem_singleton.2 (isInvisible_of_sign hkinds))
  | extended hkinds =>
    exact .inr (List.forall_mem_cons.2 ⟨isInvisible_of_sign hkinds,
      List.forall_mem_singleton.2 rfl⟩)
  | whole hfirst hdigits =>
    exact .inr (List.forall_mem_cons.2 ⟨isInvisible_of_isDigit hfirst,
      fun d hd => isInvisible_of_isDigit (hdigits d hd)⟩)
  | fraction hfirst hdigits _ hdecimals =>
    refine .inr (List.forall_mem_cons.2 ⟨isInvisible_of_isDigit hfirst,
      List.forall_mem_append.2 ⟨fun d hd => isInvisible_of_isDigit
        (hdigits d hd), List.forall_mem_cons.2 ⟨by decide,
          fun d hd => isInvisible_of_isDigit (hdecimals d hd)⟩⟩⟩)
  | word hfirst hmore =>
    exact .inr (List.forall_mem_cons.2 ⟨isInvisible_of_startsName hfirst,
      fun d hd => isInvisible_of_continuesName (hmore d hd)⟩)

/-- A token is one of its kind also without what cannot be seen. -/
theorem Cuts.visible {kind : TokenKind} {lexeme rest after : List Char}
    {p : Position} (h : Cuts kind lexeme rest)
    (hlongest : Token.Longest ⟨kind, String.ofList lexeme, p⟩ after.head?) :
    Cuts kind (seen lexeme) after := by
  rcases h.string_or_visible with ⟨contents, rfl, rfl, hcontents⟩ | hvisible
  · rw [seen_cons rfl, seen_append]
    exact .string fun d hd => hcontents d (mem_of_mem_seen hd)
  · rw [seen_eq_self hvisible]
    exact h.before hlongest

-- =================================================================== gaps

/-- What stands between tokens does so also without what cannot be seen. -/
theorem Gap.visible {gap after : List Char} (h : Gap gap after) :
    Gap (seen gap) (seen after) := by
  induction h with
  | none => exact .none
  | @blank c gap after hc _ ih =>
    cases hinvisible : isInvisible c with
    | true =>
      rw [seen, List.filter_cons_of_neg (by rw [hinvisible]; nofun)]
      exact ih
    | false =>
      rw [seen_cons hinvisible]
      exact .blank hc ih
  | @comment text gap after hline hend _ ih =>
    rw [List.cons_append, List.cons_append, seen_cons rfl, seen_cons rfl,
      seen_append]
    refine .comment (fun d hd => hline d (mem_of_mem_seen hd)) ?_ ih
    rw [← seen_append]
    -- The newline that ends a comment can be seen.
    cases hbehind : gap ++ after with
    | nil => nofun
    | cons c others =>
      obtain rfl := hend c (by rw [hbehind]; rfl)
      rw [seen_cons rfl]
      rintro d ⟨⟩
      rfl

-- ================================================================= faults

/-- Whether a fault is that a string is open. -/
def ScanFault.opensString : ScanFault → Bool
  | unterminatedString _ => true
  | _ => false

/-- Where the scanner finds a fault, it finds one of its kind also without
what cannot be seen. -/
theorem Faulty.visible {cs : List Char} {fault : ScanFault}
    (h : Faulty cs fault)
    (hrefused : ∀ c, fault = .unexpectedCharacter c → isInvisible c = false)
    (hnumber : ∀ spelling, fault = .unterminatedNumber spelling →
      ∀ d ∈ (seen (cs.drop spelling.length)).head?,
        Text.isDigit d = false) :
    ∃ fault', Faulty (seen cs) fault' ∧
      fault'.opensString = fault.opensString := by
  cases h with
  | string hopen =>
    rw [seen_cons rfl]
    exact ⟨_, .string fun hquote => hopen (mem_of_mem_seen hquote), rfl⟩
  | @number first digits after hfirst hdigits hnext =>
    have hspelling : first :: (digits ++ '.' :: after)
        = (first :: digits ++ ['.']) ++ after := by
      simp
    have hnext' := hnumber _ rfl
    rw [hspelling, String.length_ofList, List.drop_left] at hnext'
    rw [seen_cons (isInvisible_of_isDigit hfirst), seen_append,
      seen_eq_self fun d hd => isInvisible_of_isDigit (hdigits d hd),
      seen_cons rfl]
    exact ⟨_, .number hfirst hdigits hnext', rfl⟩
  | character h =>
    rw [seen_cons (hrefused _ rfl)]
    exact ⟨_, .character h, rfl⟩

-- ================================================================== scans

/-- Along a scan, the text without what cannot be seen is scanned to tokens
of the same kinds. -/
theorem ScansTo.visible {p q : Position} {cs rest : List Char}
    {ts : List Token} (h : ScansTo p cs ts q rest) (before : List Char)
    (hp : p = Position.start.after before)
    (hlongest : ∀ t ∈ ts, t.Longest
      (seen ((before ++ cs).drop (t.pos.offset + t.length))).head?)
    (p' : Position) : ∃ ts' q', ScansTo p' (seen cs) ts' q' (seen rest) ∧
      ts'.map (·.kind) = ts.map (·.kind) := by
  induction h generalizing before p' with
  | here => exact ⟨[], p', .here, rfl⟩
  | @gap p q gap cs rest ts hgap _ ih =>
    rw [← List.append_assoc] at hlongest
    obtain ⟨ts', q', hway, hkinds⟩ := ih (before ++ gap)
      (by rw [hp, ← Position.after_append]) hlongest (p'.after (seen gap))
    rw [seen_append]
    exact ⟨ts', q', hway.gap hgap.visible, hkinds⟩
  | @token p q kind lexeme cs rest ts hcuts _ ih =>
    rw [← List.append_assoc] at hlongest
    obtain ⟨hfirst, hothers⟩ := List.forall_mem_cons.1 hlongest
    obtain ⟨ts', q', hway, hkinds⟩ := ih (before ++ lexeme)
      (by rw [hp, ← Position.after_append]) hothers
      (p'.after (seen lexeme))
    have hend : p.offset + Token.length ⟨kind, String.ofList lexeme, p⟩
        = (before ++ lexeme).length := by
      rw [hp, offset_after_start, Token.length, String.length_ofList,
        List.length_append]
    rw [hend, List.drop_left] at hfirst
    rw [seen_append]
    exact ⟨_ :: ts', q', hway.token (hcuts.visible hfirst),
      congrArg (kind :: ·) hkinds⟩

namespace Console

-- =========================================================== the test

/-- What is open depends on the kinds of the tokens. -/
theorem openDepth_congr {ts ts' : List Token}
    (h : ts.map (·.kind) = ts'.map (·.kind)) :
    openDepth ts = openDepth ts' := by
  have hkinds (ts : List Token) : openDepth ts = (ts.map (·.kind)).foldl
      (fun depth kind => openAfter depth ⟨kind, "", .start⟩) 0 := by
    rw [List.foldl_map]
    rfl
  rw [hkinds, hkinds, h]

theorem wantsMore_of_error {text : String} {e : ScanError}
    (h : scan text = .error e) : wantsMore text = e.fault.opensString := by
  rw [wantsMore, h]
  obtain ⟨fault, pos⟩ := e
  cases fault <;> rfl

/-- A text wants to go on as the text does that will be run, if the scanner
takes no notice of what cannot be seen. -/
theorem wantsMore_source {text : String} (h : Unnoticed text) :
    wantsMore (source text) = wantsMore text := by
  obtain ⟨q, rest, hway, hstop⟩ := exists_scansTo .start text.toList
  obtain ⟨ts', q', hway', hkinds⟩ := hway.visible [] rfl h.token .start
  have hsource : (source text).toList = seen text.toList :=
    String.toList_ofList
  -- Both scans come to the end, or both to a fault of one kind.
  rcases hstop with hend | ⟨fault, hfault⟩
  · have hscan : scan text
        = .ok (scanned text ++ [⟨.endOfText, "", q⟩]) :=
      hway.scanFrom_of_end hend
    have hscan' : scan (source text)
        = .ok (ts' ++ [⟨.endOfText, "", q'⟩]) := by
      rw [scan, hsource]
      exact hway'.scanFrom_of_end (by rw [hend]; rfl)
    rw [wantsMore_of_ok hscan', wantsMore_of_ok hscan, openDepth_congr]
    simpa [scanned] using hkinds
  · have hscan : scan text = .error ⟨fault, q⟩ :=
      hway.scanFrom_of_faulty hfault
    obtain ⟨passed, hpassed, hpos, -⟩ := hway.cut
    obtain ⟨fault', hfault', hkind⟩ := hfault.visible
      (fun c hc => h.refused c q (by rw [hscan, hc]))
      (fun spelling hspelling => by
        have hnext := h.number spelling q (by rw [hscan, hspelling])
        rwa [hpos, offset_after_start, hpassed, ← List.drop_drop,
          List.drop_left] at hnext)
    have hscan' : scan (source text) = .error ⟨fault', q'⟩ := by
      rw [scan, hsource]
      exact hway'.scanFrom_of_faulty hfault'
    rw [wantsMore_of_error hscan', wantsMore_of_error hscan, hkind]

/-- On a text that is no command, the return key judges the text that will
be run, if the scanner takes no notice of what cannot be seen. A text in
which the scanner refuses a character is submitted, also where what will be
run wants to go on. -/
theorem return_judges_unnoticed (text : String)
    (hcommand : looksLikeCommand text = false) :
    (Unnoticed text → enter text =
        if wantsMore (source text) then ⟨text ++ "\n", [.insert]⟩
        else ⟨text, [.submit]⟩) ∧
      ∀ c p, scan text = .error ⟨.unexpectedCharacter c, p⟩ →
        enter text = ⟨text, [.submit]⟩ := by
  constructor
  · intro h
    rw [wantsMore_source h, enter, hcommand, Bool.not_false, Bool.true_and]
  · intro c p hscan
    rw [enter, wantsMore_of_error hscan]
    simp [ScanFault.opensString]

/-- What cannot be seen in a string, before a newline and in a comment. -/
theorem return_judges_unnoticed_inString :
    let text := "f(\"\u200b\",\r\n1 // \ufeff"
    looksLikeCommand text = false ∧ Unnoticed text ∧
      source text = "f(\"\",\n1 // " ∧ wantsMore (source text) = true ∧
      enter text = ⟨text ++ "\n", [.insert]⟩ := by
  intro text
  have hcommand : looksLikeCommand text = false := by
    decide +kernel
  have hscan : (scan text).isOk = true := by
    decide +kernel
  have hno (e : ScanError) : scan text ≠ .error e := by
    intro herror
    rw [herror] at hscan
    cases hscan
  have hunnoticed : Unnoticed text :=
    { refused := fun _ _ h => absurd h (hno _)
      number := fun _ _ h => absurd h (hno _)
      token := by decide +kernel }
  have hmore : wantsMore (source text) = true := by
    decide +kernel
  have hjudged := (return_judges_unnoticed text hcommand).1 hunnoticed
  rw [if_pos hmore] at hjudged
  exact ⟨hcommand, hunnoticed, by decide +kernel, hmore, hjudged⟩

/-- The key judges otherwise than what will be run would be judged, if the
scanner refuses what cannot be seen; if it keeps slashes apart that begin
a comment together; and if it keeps a digit away from its point. -/
theorem unseen_misjudged :
    (looksLikeCommand "\x7b\u200b" = false ∧
        enter "\x7b\u200b" = ⟨"\x7b\u200b", [.submit]⟩ ∧
        wantsMore (source "\x7b\u200b") = true) ∧
      (enter "1/\r/\x7b" = ⟨"1/\r/\x7b\n", [.insert]⟩ ∧
        wantsMore (source "1/\r/\x7b") = false) ∧
      enter "(1.\r5" = ⟨"(1.\r5", [.submit]⟩ ∧
        wantsMore (source "(1.\r5") = true := by
  decide +kernel

end Console

end Lox
