/-
What the console takes for a program. The text of an input, without what
cannot be seen, is cut free of blanks before it is looked at for a slash;
the scanner knows fewer blanks, and two slashes are a comment to it. An
input that is a program and not blank is run as a unit of the session,
and what it fails with is reported, with the details if they are asked
for; unless a comment is the first thing in it: then it is answered as a
command that there is not, and nothing is run (`accepted_input_runs`).

# Why nothing else is mistaken

A program has no blank in front that is not white space of the language,
for no token starts with one (`Cuts.first_not_blank`), and no program
begins with the slash that divides. So what stands behind the blanks of
a program is a slash only if a comment is there.
-/
import Mathlib
import Lox.Console
import Lox.Proofs.Reading.Lexemes

namespace Lox

-- ============================================================ statements

namespace Console

/-- Takes inputs one after another. -/
def feed (c : Console) : List Input → Console × List (List Effect)
  | [] => (c, [])
  | input :: inputs =>
    let first := c.step input
    let others := first.1.feed inputs
    (others.1, first.2 :: others.2)

/-- The text that an input is to the session. -/
def source (text : String) : String := String.ofList (visible text)

/-- The first thing in the text that is no white space is a comment. -/
def OpensWithComment (cs : List Char) : Prop :=
  ['/', '/'] <+: cs.dropWhile isLayout

instance (cs : List Char) : Decidable (OpensWithComment cs) :=
  inferInstanceAs (Decidable (_ <+: _))

/-- What a unit of the session comes to, with the details of what it fails
with if they are asked for. -/
def runUnit (c : Console) (source : String) : Console × List Effect :=
  let (session, report) := c.session.run source
  ({ c with session }, written report (c.details source))

theorem runUnit_effects (c : Console) (source : String) :
    (c.runUnit source).2
      = written (c.session.run source).2 (c.details source) := rfl

/-- The answer to a command that there is not. -/
def unknown (word : String) : List Effect :=
  [.err ("Unknown command: " ++ word ++ "\n")]

end Console

-- ================================================================ blanks

namespace Text

/-- What stands apart from every range of blanks is none. -/
theorem isBlank_of_apart {c : Char}
    (h : ∀ r ∈ blankTable, r.2 < c.toNat ∨ c.toNat < r.1) :
    isBlank c = false := by
  rw [Bool.eq_false_iff]
  intro hblank
  rw [isBlank, CodeRange.anyCovers_iff] at hblank
  obtain ⟨r, hr, hfirst, hlast⟩ := hblank
  rcases h r hr with hbehind | hbefore
  · omega
  · omega

/-- No blank is a letter. -/
theorem isBlank_of_isLetter {c : Char} (h : isLetter c = true) :
    isBlank c = false := by
  refine isBlank_of_apart fun r hr => ?_
  unfold isLetter at h
  split at h
  · next hsmall =>
    have hsides : ∀ r ∈ blankTable, r.2 < 65 ∨ 128 ≤ r.1 := by decide
    have hside := hsides r hr
    have hletter := le_toNat_of_isAlpha h
    omega
  · rw [CodeRange.anyCovers_iff] at h
    obtain ⟨q, hq, hfirst, hlast⟩ := h
    have hsides : ∀ r ∈ blankTable, ∀ q ∈ letterTable,
        r.2 < q.1 ∨ q.2 < r.1 := by decide +kernel
    have hside := hsides r hr q hq
    omega

/-- The visible characters of ASCII are no blanks. -/
theorem isBlank_of_range {c : Char} (h : 33 ≤ c.toNat ∧ c.toNat < 128) :
    isBlank c = false := by
  refine isBlank_of_apart fun r hr => ?_
  have hsides : ∀ r ∈ blankTable, r.2 < 33 ∨ 128 ≤ r.1 := by decide
  have hside := hsides r hr
  omega

/-- What is cut off at the back of a text stands behind its last
character that is no blank. -/
theorem trim_of_front {cs front more : List Char} {c : Char}
    (hfront : trimFront cs = front ++ c :: more) (hc : isBlank c = false) :
    ∃ more', trim cs = front ++ c :: more' := by
  refine ⟨(trimFront more.reverse).reverse, ?_⟩
  rw [trim, hfront, List.reverse_append, List.reverse_cons,
    List.append_assoc, List.singleton_append, trimFront,
    dropWhile_append_of_stop hc, List.reverse_append, List.reverse_cons,
    List.reverse_reverse, List.append_assoc, List.singleton_append]
  rfl

/-- A text is cut free at its back without losing its front. -/
theorem head?_trim (cs : List Char) :
    (trim cs).head? = (trimFront cs).head? := by
  cases hfront : trimFront cs with
  | nil => rw [trim, hfront]; rfl
  | cons c more =>
    have hc : isBlank c = false := by
      have hstop := List.head?_dropWhile_not isBlank cs
      rw [← trimFront, hfront] at hstop
      exact hstop
    obtain ⟨more', htrim⟩ := @trim_of_front cs [] more c hfront hc
    rw [htrim]
    rfl

/-- The white space of the language is blank. -/
theorem isBlank_of_isLayout {c : Char} (h : isLayout c = true) :
    isBlank c = true := by
  rcases isLayout_iff.1 h with rfl | rfl | rfl | rfl <;> decide

end Text

-- ============================================================== the front

/-- No token starts with a blank. -/
theorem Cuts.first_not_blank {kind : TokenKind} {c : Char}
    {tail rest : List Char} (h : Cuts kind (c :: tail) rest) :
    Text.isBlank c = false := by
  cases h with
  | slash | string => decide
  | punctuation hkind =>
    unfold punctuation? at hkind
    split at hkind <;> first | decide | cases hkind
  | alone hkinds | extended hkinds =>
    unfold extensible? at hkinds
    split at hkinds <;> first | decide | cases hkinds
  | whole hfirst | fraction hfirst =>
    apply Text.isBlank_of_range
    have hrange : 48 ≤ c.toNat ∧ c.toNat ≤ 57 := by
      simpa [Text.isDigit, Char.isDigit, UInt32.le_iff_toNat_le] using hfirst
    omega
  | word hfirst =>
    rcases Bool.or_eq_true_iff.1 hfirst with hletter | hline
    · exact Text.isBlank_of_isLetter hletter
    · rw [beq_iff_eq.1 hline]
      decide

/-- The only token that starts with a slash is the slash. -/
theorem Cuts.kind_of_slash {kind : TokenKind} {tail rest : List Char}
    (h : Cuts kind ('/' :: tail) rest) : kind = .slash := by
  cases h with
  | slash => rfl
  | punctuation hkind => cases hkind
  | alone hkinds | extended hkinds => cases hkinds
  | whole hfirst | fraction hfirst => exact absurd hfirst (by decide)
  | word hfirst => exact absurd hfirst (by decide)

open Console (OpensWithComment)

/-- What stands between tokens begins with a comment, or it is white space
that both ways to cut blanks off take away. -/
theorem Gap.opens {gap after : List Char} (h : Gap gap after) :
    OpensWithComment (gap ++ after) ∨
      Text.trimFront (gap ++ after) = Text.trimFront after ∧
        (gap ++ after).dropWhile isLayout = after.dropWhile isLayout := by
  induction h with
  | none => exact .inr ⟨rfl, rfl⟩
  | @blank c gap after hc _ ih =>
    have hlayout : isLayout c = true := isLayout_iff.2 hc
    have hblank : Text.isBlank c = true := Text.isBlank_of_isLayout hlayout
    rw [OpensWithComment, Text.trimFront, List.cons_append,
      List.dropWhile_cons_of_pos hlayout, List.dropWhile_cons_of_pos hblank]
    exact ih
  | comment => exact .inl ⟨_, rfl⟩

/-- No program begins with a slash. -/
theorem Spells.not_slash {n n' : Nat} {t : Token} {ts : List Token}
    {program : List Stmt} (h : Spells n (t :: ts) (.decls program) n') :
    t.kind ≠ .slash := by
  intro hkind
  cases program with
  | nil =>
    generalize hall : t :: ts = all at h
    cases h
    cases hall
  | cons s ss =>
    obtain ⟨t', ts', heq, hbegins⟩ := h.begins rfl
    cases heq
    rw [hkind] at hbegins
    cases hbegins

/-- If the first character of a text that is no blank is a slash, it opens a
comment or is the first token. -/
theorem Scans.comment_or_slash {p : Position} {cs : List Char}
    {ts : List Token} {eof : Token} (h : Scans p cs ts eof)
    (hslash : (Text.trimFront cs).head? = some '/') :
    OpensWithComment cs ∨ ∃ t more, ts = t :: more ∧ t.kind = .slash := by
  induction h with
  | done => cases hslash
  | gap hgap _ ih =>
    rcases hgap.opens with hopens | ⟨htrim, hdrop⟩
    · exact .inl hopens
    · rw [OpensWithComment, hdrop]
      exact ih (htrim ▸ hslash)
  | @token p kind lexeme rest ts eof hcuts _ _ =>
    obtain ⟨c, tail, rfl⟩ := List.exists_cons_of_ne_nil hcuts.ne_nil
    have hstop : ¬ Text.isBlank c = true := by
      rw [hcuts.first_not_blank]
      nofun
    rw [Text.trimFront, List.cons_append,
      List.dropWhile_cons_of_neg hstop] at hslash
    cases hslash
    exact .inr ⟨_, _, rfl, hcuts.kind_of_slash⟩

/-- In front of a program it opens a comment. -/
theorem Scans.opens_of_slash {p : Position} {cs : List Char}
    {ts : List Token} {eof : Token} (h : Scans p cs ts eof) {n n' : Nat}
    {program : List Stmt} (hs : Spells n ts (.decls program) n')
    (hslash : (Text.trimFront cs).head? = some '/') :
    OpensWithComment cs := by
  rcases h.comment_or_slash hslash with hopens | ⟨t, more, rfl, hkind⟩
  · exact hopens
  · exact absurd hkind hs.not_slash

-- =============================================================== commands

namespace Console

/-- No command begins with two slashes. -/
theorem ofName?_slashes (more : List Char) :
    Command.ofName? (String.ofList ('/' :: '/' :: more)) = none := by
  have hne (name : String) {c : Char} {cs : List Char}
      (hname : name.toList = '/' :: c :: cs) (hc : c ≠ '/') :
      (name == String.ofList ('/' :: '/' :: more)) = false := by
    rw [beq_eq_false_iff_ne]
    rintro rfl
    rw [String.toList_ofList] at hname
    cases hname
    exact hc rfl
  unfold Command.ofName? Command.all
  simp only [List.find?_cons, List.find?_nil, Command.name,
    hne "/clear" rfl (by decide), hne "/py-traceback" rfl (by decide),
    hne "/reset" rfl (by decide)]

/-- A comment at the front is a command line to the console, and its first
word begins with the two slashes. -/
theorem splitCommand?_of_comment {cs : List Char}
    (h : OpensWithComment cs) : ∃ more argument,
      (Text.cutWord (Text.trim cs)).1 = '/' :: '/' :: more ∧
        splitCommand? cs
          = some (String.ofList ('/' :: '/' :: more), argument) := by
  obtain ⟨behind, hbehind⟩ := h
  have hfront : Text.trimFront cs = ['/'] ++ '/' :: behind := by
    rw [← List.takeWhile_append_dropWhile (p := isLayout) (l := cs),
      ← hbehind, Text.trimFront, List.dropWhile_append_of_pos]
    · rfl
    · exact fun c hc => Text.isBlank_of_isLayout
        (List.all_eq_true.1 List.all_takeWhile c hc)
  obtain ⟨line, hline⟩ := Text.trim_of_front hfront (by decide)
  have hword : (Text.cutWord (Text.trim cs)).1
      = '/' :: '/' :: line.takeWhile (!Text.isBlank ·) := by
    rw [hline]
    rfl
  refine ⟨_, String.ofList (Text.cutWord (Text.trim cs)).2, hword, ?_⟩
  rw [← hword]
  unfold splitCommand?
  exact if_pos (by rw [hline]; rfl)

/-- A text with no slash at the front is no command. -/
theorem splitCommand?_eq_none {cs : List Char}
    (h : (Text.trimFront cs).head? ≠ some '/') : splitCommand? cs = none := by
  unfold splitCommand?
  rw [← Text.head?_trim] at h
  exact if_neg h

-- ================================================================ inputs

theorem step_of_command (c : Console) {text word argument : String}
    (hblank : (visible text).all Text.isBlank = false)
    (h : splitCommand? (visible text) = some (word, argument)) :
    c.step (.text text) = c.obey word argument := by
  simp [step, hblank, h]

theorem step_of_unit (c : Console) {text : String}
    (hblank : (visible text).all Text.isBlank = false)
    (h : splitCommand? (visible text) = none) :
    c.step (.text text) = c.runUnit (source text) := by
  simp [step, hblank, h, runUnit, source]

/-- What is taken one after another is taken in two parts. -/
theorem feed_append (c : Console) (before after : List Input) :
    c.feed (before ++ after)
      = (((c.feed before).1.feed after).1,
          (c.feed before).2 ++ ((c.feed before).1.feed after).2) := by
  induction before generalizing c with
  | nil => rfl
  | cons input before ih =>
    simp only [List.cons_append, feed, ih]

/-- An input that is a program is run as a unit of the session, whatever
was put in before it, and the console goes on behind it; but if a comment
is the first thing in it, it is answered as a command that there is not,
and nothing is run. -/
theorem accepted_input_runs (start : Console) (before after : List Input)
    (text : String) (program : List Stmt)
    (hblank : (visible text).all Text.isBlank = false)
    (hread : (readProgram (source text)
      (start.feed before).1.session.nextId).1 = .ok program) :
    let c := (start.feed before).1
    let word := String.ofList (Text.cutWord (Text.trim (visible text))).1
    let answer := if OpensWithComment (visible text) then (c, unknown word)
      else c.runUnit (source text)
    start.feed (before ++ .text text :: after)
      = ((answer.1.feed after).1,
          (start.feed before).2 ++ answer.2 :: (answer.1.feed after).2) := by
  intro c word answer
  have hstep : c.step (.text text) = answer := by
    -- Slashes that open a comment make a command, and no program begins with
    -- another slash.
    by_cases hopens : OpensWithComment (visible text)
    · obtain ⟨more, argument, hword, hsplit⟩ :=
        splitCommand?_of_comment hopens
      simp only [answer, word, if_pos hopens, hword]
      rw [step_of_command c hblank hsplit, obey, ofName?_slashes]
      rfl
    · obtain ⟨ts, eof, hscan, -, hs⟩ := readProgram_eq_ok_iff.1
        (Prod.ext hread rfl : readProgram (source text) c.session.nextId
          = (.ok program, (readProgram (source text) c.session.nextId).2))
      rw [scan, source, String.toList_ofList] at hscan
      obtain ⟨ts', eof', heq, hscans⟩ := scans_of_scanFrom _ _ hscan
      obtain ⟨rfl, -⟩ := List.append_inj' heq rfl
      simp only [answer, if_neg hopens]
      exact step_of_unit c hblank (splitCommand?_eq_none fun hslash =>
        hopens (hscans.opens_of_slash hs hslash))
  rw [feed_append, feed, hstep]

/-- The program `print nil;` in the second line. -/
def nilPrinted (offset : Nat) : List Stmt :=
  [.print ⟨2, 2, 1, offset⟩ (.literal ⟨1, 2, 7, offset + 6⟩ .nil)]

/-- Behind it in the line, `nil();`, which fails when it is run. -/
def nilCalled : List Stmt :=
  [.expr ⟨6, 2, 12, 12⟩
    (.call ⟨5, 2, 15, 15⟩ 4 (.literal ⟨3, 2, 12, 12⟩ .nil) [])]

/-- A console at its start, on a host that repeats the text of a unit when it
is asked where it was. -/
def repeating : Console :=
  start 0 [] none fun _ source => "  in:" ++ source ++ "\n"

theorem step_traceback_on (c : Console) :
    c.step (.text "/py-traceback on")
      = ({ c with traceback := true },
          [.out "Python traceback: on\n"]) := by
  have hblank : (visible "/py-traceback on").all Text.isBlank = false := by
    decide
  have hsplit : splitCommand? (visible "/py-traceback on")
      = some ("/py-traceback", "on") := rfl
  have hname : Command.ofName? "/py-traceback" = some .traceback := by decide
  have hswitch : Switch.ofArgument? "on" = some .on := by cbv
  rw [step_of_command c hblank hsplit, obey, hname]
  simp only [hswitch]
  rfl

theorem accepted_input_runs_behindNewline :
    (visible "\nprint nil; nil();").all Text.isBlank = false ∧
      (readProgram (source "\nprint nil; nil();") 1).1
        = .ok (nilPrinted 1 ++ nilCalled) ∧
      (repeating.feed [.interrupt, .text "/py-traceback on",
        .text "\nprint nil; nil();", .interrupt]).2
          = [[.out "KeyboardInterrupt\n"], [.out "Python traceback: on\n"],
              [.out "nil\n", .err
                ("Error: Attempted to call uncallable value nil "
                  ++ "(line 2, col 15)\n"
                  ++ "\nPython traceback:\n  in:\nprint nil; nil();\n")],
              [.out "KeyboardInterrupt\n"]] := by
  have hblank : (visible "\nprint nil; nil();").all Text.isBlank = false := by
    decide
  have hsource : source "\nprint nil; nil();" = "\nprint nil; nil();" := by
    cbv
  have hread : (readProgram (source "\nprint nil; nil();") 1).1
      = .ok (nilPrinted 1 ++ nilCalled) := by
    rw [hsource]
    cbv
  have hreport : (repeating.session.run "\nprint nil; nil();").2
      = ⟨"nil\n",
          some (.runtime ⟨.notCallable .nil, some ⟨5, 2, 15, 15⟩⟩)⟩ := by
    cbv
  have hbefore : repeating.feed [.interrupt, .text "/py-traceback on"]
      = ({ repeating with traceback := true },
          [[.out "KeyboardInterrupt\n"], [.out "Python traceback: on\n"]]) := by
    simp only [feed, step_traceback_on]
    rfl
  have hdetails :
      details { repeating with traceback := true } "\nprint nil; nil();"
        = some ("  in:" ++ "\nprint nil; nil();" ++ "\n") := rfl
  have hfeed := accepted_input_runs repeating
    [.interrupt, .text "/py-traceback on"] [.interrupt]
    "\nprint nil; nil();" _ hblank (by rw [hbefore]; exact hread)
  simp only [if_neg (show ¬ OpensWithComment (visible "\nprint nil; nil();") by
    decide), hsource, hbefore] at hfeed
  refine ⟨hblank, hread, (congrArg Prod.snd hfeed).trans ?_⟩
  simp only [runUnit_effects, feed]
  rw [hreport, hdetails]
  rfl

/-- Not every input that is a program is run: behind a comment this one is
answered as a command, and would have printed something. -/
theorem commented_input_refused :
    (visible "// one\nprint nil;").all Text.isBlank = false ∧
      (readProgram "// one\nprint nil;" 1).1 = .ok (nilPrinted 7) ∧
      ((start 0 [] none).runUnit "// one\nprint nil;").2
        = [.out "nil\n"] ∧
      ((start 0 [] none).step (.text "// one\nprint nil;")).2
        = [.err "Unknown command: //\n"] := by
  have hreport : ((Session.start 0 []).run "// one\nprint nil;").2
      = ⟨"nil\n", none⟩ := by
    cbv
  refine ⟨by decide, by cbv, ?_, ?_⟩
  · show written ((Session.start 0 []).run "// one\nprint nil;").2 none = _
    rw [hreport]
    rfl
  · rfl

end Console

end Lox
