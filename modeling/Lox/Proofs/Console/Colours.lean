/-
The colours of a line, as it is drawn: pieces of text, each with a style.
Whatever the styles, the pieces of a line put together are the line. If
the line can be scanned, each of its tokens is one piece, in the style
that is meant for tokens of its kind; a comment behind the last of them
is one piece, in the style of comments; and what is left is white space,
without a style. A line that cannot be scanned is one piece without a
style (`colours_exact`).

# Why a gap is white space

A comment goes on to a newline or to the end, and a line has no newline in
it. So no token stands behind a comment, and what is between two tokens of
a line is white space only (`Gap.within_line`). That slashes in a string
are no comment is then clear: a string is a token, and a piece of its own.
-/
import Mathlib
import Lox.Console.Highlight
import Lox.Proofs.Console.Inputs
import Lox.Proofs.Reading.Layout

namespace Lox

namespace Console

-- ============================================================ statements

/-- The lines of a document: what stands between its newlines. -/
def lines (text : String) : List String :=
  (text.toList.splitOn '\n').map String.ofList

/-- The style of tokens of a kind. Keywords stand out, but for those that
are values; signs and names have no style. -/
def styleOf : TokenKind → String
  | .kwTrue | .kwFalse | .kwNil => "ansicyan"
  | .number => "ansimagenta"
  | .string => "ansigreen"
  | .identifier => ""
  | kind => if kind.isWord then "bold ansicyan" else ""

/-- The style of a name before an opening parenthesis. -/
def functionStyle : String := "bold ansiyellow"

def commentStyle : String := "italic ansigray"

/-- A line with these tokens as it is drawn, from the first piece to the
last. -/
inductive Coloured : List Char → List Token → List Drawn → Prop
  | done : Coloured [] [] []
  /-- A comment, behind which there is nothing. -/
  | comment {text : List Char} :
      Coloured ('/' :: '/' :: text) []
        [⟨commentStyle, String.ofList ('/' :: '/' :: text)⟩]
  /-- As much white space as there is. -/
  | blank {blank rest : List Char} {ts : List Token} {ds : List Drawn}
      (hsome : blank ≠ []) (hblank : ∀ c ∈ blank, Blank c)
      (hnext : ∀ c ∈ rest.head?, ¬ Blank c) (h : Coloured rest ts ds) :
      Coloured (blank ++ rest) ts (⟨"", String.ofList blank⟩ :: ds)
  /-- A name before an opening parenthesis. -/
  | function {t : Token} {rest : List Char} {ts : List Token}
      {ds : List Drawn} (hname : t.kind = .identifier)
      (hopening : ∃ u ∈ ts.head?, u.kind = .leftParen)
      (h : Coloured rest ts ds) :
      Coloured (t.lexeme.toList ++ rest) (t :: ts)
        (⟨functionStyle, t.lexeme⟩ :: ds)
  | token {t : Token} {rest : List Char} {ts : List Token}
      {ds : List Drawn}
      (hother : t.kind = .identifier → ∀ u ∈ ts.head?, u.kind ≠ .leftParen)
      (h : Coloured rest ts ds) :
      Coloured (t.lexeme.toList ++ rest) (t :: ts)
        (⟨styleOf t.kind, t.lexeme⟩ :: ds)

end Console

-- ================================================================= lines

/-- What stands between two newlines has none in it. -/
theorem not_mem_of_mem_splitOn {cs line : List Char}
    (h : line ∈ cs.splitOn '\n') : '\n' ∉ line := by
  induction cs generalizing line with
  | nil =>
    rw [List.splitOn_nil, List.mem_singleton] at h
    simp [h]
  | cons c cs ih =>
    rw [List.splitOn_cons_eq_if_modifyHead] at h
    obtain ⟨first, others, hsplit⟩ :=
      List.exists_cons_of_ne_nil (List.splitOn_ne_nil '\n' cs)
    rw [hsplit] at h ih
    split at h
    · rcases List.mem_cons.1 h with rfl | h
      · simp
      · exact ih h
    · next hc =>
      rcases List.mem_cons.1 h with rfl | h
      · rw [List.mem_cons, not_or]
        refine ⟨fun heq => hc ?_, ih List.mem_cons_self⟩
        rw [← heq]
        exact beq_self_eq_true _
      · exact ih (List.mem_cons_of_mem _ h)

/-- In a line, a comment has nothing behind it, and all else between tokens
is white space. -/
theorem Gap.within_line {gap after : List Char} (h : Gap gap after)
    (hline : '\n' ∉ gap ++ after) :
    (∀ c ∈ gap, Blank c) ∨ after = [] ∧ ∃ blank text,
      gap = blank ++ '/' :: '/' :: text ∧ ∀ c ∈ blank, Blank c := by
  induction h with
  | none => exact .inl (by simp)
  | @blank c gap after hc _ ih =>
    rw [List.cons_append, List.mem_cons, not_or] at hline
    rcases ih hline.2 with hblank | ⟨hend, blank, text, rfl, hblank⟩
    · exact .inl (List.forall_mem_cons.2 ⟨hc, hblank⟩)
    · exact .inr ⟨hend, c :: blank, text, rfl,
        List.forall_mem_cons.2 ⟨hc, hblank⟩⟩
  | @comment text gap after _ hend _ _ =>
    rw [List.append_assoc] at hline
    cases hbehind : gap ++ after with
    | nil =>
      obtain ⟨rfl, rfl⟩ := List.append_eq_nil_iff.1 hbehind
      exact .inr ⟨rfl, [], text, by simp, by simp⟩
    | cons c others =>
      have hc : c = '\n' := hend c (by rw [hbehind]; rfl)
      rw [hbehind, hc] at hline
      exact absurd (by simp) hline

/-- Behind its first token, the rest of a text is exact as well. -/
theorem Lossless.tail {text : List Char} {start : Nat} {t eof : Token}
    {ts : List Token} (h : Lossless text start (t :: ts) eof) :
    Lossless text (t.pos.offset + t.length) ts eof where
  ends := h.ends
  only := (List.forall_mem_cons.1 h.only).2
  spelled := (List.forall_mem_cons.1 h.spelled).2
  ordered := (List.pairwise_cons.1 h.ordered).2
  behind u hu := ((List.pairwise_cons.1 h.ordered).1 u hu).2
  gaps := h.gaps.2
  placed := (List.forall_mem_cons.1 h.placed).2
  longest := (List.forall_mem_cons.1 h.longest).2

/-- From where a token stands, a text goes on with its spelling. -/
theorem Lossless.drop_eq {text : List Char} {start : Nat} {t eof : Token}
    {ts : List Token} (h : Lossless text start (t :: ts) eof) :
    text.drop t.pos.offset
      = t.lexeme.toList ++ text.drop (t.pos.offset + t.length) := by
  rw [h.spelled t (by simp), List.extract_eq_take_drop,
    Nat.add_sub_cancel_left, ← List.drop_drop, List.take_append_drop]

/-- What is in front of the first token and what goes on with it make up
the text from `start` on. -/
theorem Lossless.extract_append {text : List Char} {start : Nat}
    {t eof : Token} {ts : List Token}
    (h : Lossless text start (t :: ts) eof) :
    text.extract start t.pos.offset ++ text.drop t.pos.offset
      = text.drop start := by
  have hle : start ≤ t.pos.offset := h.behind t (by simp)
  rw [List.extract_eq_take_drop, ← Nat.add_sub_cancel' hle,
    Nat.add_sub_cancel_left, ← List.drop_drop, List.take_append_drop]

/-- In a line, what is in front of the first token is white space, and the
token is none. -/
theorem Lossless.blank_before {text : List Char} {start : Nat}
    {t eof : Token} {ts : List Token}
    (h : Lossless text start (t :: ts) eof) (hline : '\n' ∉ text)
    {rest : List Char} (hcuts : Cuts t.kind t.lexeme.toList rest) :
    (∀ c ∈ text.extract start t.pos.offset, Blank c) ∧
      ∀ c ∈ (text.drop t.pos.offset).head?, ¬ Blank c := by
  obtain ⟨c, more, hlexeme⟩ := List.exists_cons_of_ne_nil hcuts.ne_nil
  have hpart : '\n' ∉ text.extract start t.pos.offset
      ++ text.drop t.pos.offset := by
    rw [h.extract_append]
    exact fun hmem => hline (List.mem_of_mem_drop hmem)
  constructor
  · rcases h.gaps.1.within_line hpart with hblank | ⟨hend, -⟩
    · exact hblank
    · rw [h.drop_eq, hlexeme] at hend
      cases hend
  · rw [h.drop_eq, hlexeme]
    rintro d ⟨⟩ hd
    rw [hlexeme] at hcuts
    have hnot := hcuts.first_not_blank
    rw [Text.isBlank_of_isLayout (isLayout_iff.2 hd)] at hnot
    cases hnot

namespace Console

-- ================================================================== gaps

/-- White space at the front is no part of a comment. -/
theorem splitComment_append {blank : List Char}
    (hblank : ∀ c ∈ blank, Blank c) (rest : List Char) :
    splitComment (blank ++ rest)
      = (blank ++ (splitComment rest).1, (splitComment rest).2) := by
  induction blank with
  | nil => rfl
  | cons c blank ih =>
    obtain ⟨hc, hblank⟩ := List.forall_mem_cons.1 hblank
    have hslash : c ≠ '/' := by
      rintro rfl
      simp [Blank] at hc
    rw [List.cons_append, splitComment, if_neg (fun h => hslash h.1),
      ih hblank]
    rfl

/-- The pieces of a gap: its white space, and the comment at its end. -/
theorem gap_append {blank : List Char} (hblank : ∀ c ∈ blank, Blank c)
    (rest : List Char) :
    gap (blank ++ rest) = fragment .plain (blank ++ (splitComment rest).1)
      ++ fragment .comment (splitComment rest).2 := by
  rw [gap, splitComment_append hblank]

theorem gap_of_blank {blank : List Char} (hblank : ∀ c ∈ blank, Blank c) :
    gap blank = fragment .plain blank := by
  have h := gap_append hblank []
  simpa [splitComment, fragment] using h

-- ================================================================ styles

/-- The group of a kind has the style of the kind. -/
theorem style_ofKind (kind : TokenKind) :
    (Group.ofKind kind).style = styleOf kind := by
  cases kind <;> rfl

/-- No token is drawn like a comment. -/
theorem styleOf_ne_commentStyle (kind : TokenKind) :
    styleOf kind ≠ commentStyle := by
  cases kind <;> decide

namespace Coloured

variable {cs rest : List Char} {ts : List Token} {ds : List Drawn}

/-- White space in front, or none. -/
theorem behind_blank (h : Coloured rest ts ds) {blank : List Char}
    (hblank : ∀ c ∈ blank, Blank c) (hnext : ∀ c ∈ rest.head?, ¬ Blank c) :
    Coloured (blank ++ rest) ts
      ((fragment .plain blank).map Fragment.drawn ++ ds) := by
  cases blank with
  | nil => exact h
  | cons c blank => exact .blank (List.cons_ne_nil _ _) hblank hnext h

/-- What is behind the last token of a line. -/
theorem of_gap (h : Gap cs []) (hline : '\n' ∉ cs) :
    Coloured cs [] ((gap cs).map Fragment.drawn) := by
  rw [← List.append_nil cs] at hline
  rcases h.within_line hline with hblank | ⟨-, blank, text, rfl, hblank⟩
  · have h := Coloured.done.behind_blank hblank (by simp)
    rw [List.append_nil, List.append_nil] at h
    rw [gap_of_blank hblank]
    exact h
  · have h : Coloured ('/' :: '/' :: text) [] _ := .comment
    rw [gap_append hblank, List.map_append]
    simpa [splitComment, fragment, Fragment.drawn, Group.style,
      commentStyle] using h.behind_blank hblank (by simp [Blank])

/-- The pieces of a line put together are the line. -/
theorem texts (h : Coloured cs ts ds) :
    ds.flatMap (·.text.toList) = cs := by
  induction h with
  | done => rfl
  | comment => simp
  | blank _ _ _ _ ih | function _ _ _ ih | token _ _ ih => simp [ih]

/-- What is drawn as a comment is one, and the last piece of its line: the
pieces before it are those of the text before it, with all tokens. -/
theorem comment_last (h : Coloured cs ts ds) {d : Drawn} (hd : d ∈ ds)
    (hcomment : d.style = commentStyle) : ∃ code text before,
      cs = code ++ '/' :: '/' :: text ∧ ds = before ++ [d] ∧
        d.text = String.ofList ('/' :: '/' :: text) ∧
        Coloured code ts before := by
  induction h with
  | done => cases hd
  | @comment text =>
    rw [List.mem_singleton] at hd
    subst hd
    exact ⟨[], text, [], rfl, rfl, rfl, .done⟩
  | @blank blank rest ts ds hsome hblank hnext _ ih =>
    rcases List.mem_cons.1 hd with rfl | hd
    · exact absurd hcomment (show "" ≠ commentStyle by decide)
    · obtain ⟨code, text, before, rfl, rfl, htext, hcode⟩ := ih hd
      have hnext' : ∀ c ∈ code.head?, ¬ Blank c := fun c hc =>
        hnext c (List.mem_head?_append_of_mem_head? hc)
      exact ⟨blank ++ code, text, _ :: before,
        (List.append_assoc ..).symm, rfl, htext,
        .blank hsome hblank hnext' hcode⟩
  | @function t rest ts ds hname hopening _ ih =>
    rcases List.mem_cons.1 hd with rfl | hd
    · exact absurd hcomment (show functionStyle ≠ commentStyle by decide)
    · obtain ⟨code, text, before, rfl, rfl, htext, hcode⟩ := ih hd
      exact ⟨t.lexeme.toList ++ code, text, _ :: before,
        (List.append_assoc ..).symm, rfl, htext,
        .function hname hopening hcode⟩
  | @token t rest ts ds hother _ ih =>
    rcases List.mem_cons.1 hd with rfl | hd
    · exact absurd hcomment (styleOf_ne_commentStyle t.kind)
    · obtain ⟨code, text, before, rfl, rfl, htext, hcode⟩ := ih hd
      exact ⟨t.lexeme.toList ++ code, text, _ :: before,
        (List.append_assoc ..).symm, rfl, htext, .token hother hcode⟩

end Coloured

-- ================================================================= tokens

/-- A piece for a token, with the style that its kind and the next token
give it. -/
theorem Coloured.ofToken {t eof : Token} {rest : List Char}
    {ts : List Token} {ds : List Drawn} (heof : eof.kind = .endOfText)
    (h : Coloured rest ts ds) :
    Coloured (t.lexeme.toList ++ rest) (t :: ts)
      (⟨(Group.ofToken t (ts ++ [eof])).style, t.lexeme⟩ :: ds) := by
  by_cases hcall : t.kind = .identifier ∧ ∃ u ∈ ts.head?, u.kind = .leftParen
  · obtain ⟨hname, u, hu, hopening⟩ := hcall
    have hgroup : Group.ofToken t (ts ++ [eof]) = .function := by
      refine if_pos ⟨hname, ?_⟩
      rw [List.head?_append, Option.mem_def.1 hu]
      simpa using hopening
    rw [hgroup]
    exact .function hname ⟨u, hu, hopening⟩ h
  · have hother : t.kind = .identifier →
        ∀ u ∈ ts.head?, u.kind ≠ .leftParen :=
      fun hname u hu hopening => hcall ⟨hname, u, hu, hopening⟩
    have hgroup : Group.ofToken t (ts ++ [eof]) = .ofKind t.kind := by
      refine if_neg fun ⟨hname, hopening⟩ => ?_
      cases ts with
      | nil => simp [heof] at hopening
      | cons u ts => exact hother hname u rfl (by simpa using hopening)
    rw [hgroup, style_ofKind]
    exact .token hother h

/-- From each token on, the pieces of a line are what they should be. -/
theorem coloured_pieces {text : List Char} {start : Nat} {ts : List Token}
    {eof : Token} (hline : '\n' ∉ text) (h : Lossless text start ts eof)
    (hcuts : ∀ t ∈ ts, ∃ rest, Cuts t.kind t.lexeme.toList rest) :
    Coloured (text.drop start) ts
      ((pieces start (text.drop start) (ts ++ [eof])).map
        Fragment.drawn) := by
  induction ts generalizing start with
  | nil =>
    rw [List.nil_append, pieces, if_pos h.ends.1, pieces]
    exact .of_gap h.gaps fun hmem => hline (List.mem_of_mem_drop hmem)
  | cons t ts ih =>
    obtain ⟨⟨behind, hcut⟩, hcuts⟩ := List.forall_mem_cons.1 hcuts
    obtain ⟨hblank, hnext⟩ := h.blank_before hline hcut
    have hle : start ≤ t.pos.offset := h.behind t (by simp)
    have hbehind : (text.drop start).drop (t.pos.offset - start + t.length)
        = text.drop (t.pos.offset + t.length) := by
      rw [List.drop_drop, ← Nat.add_assoc, Nat.add_sub_cancel' hle]
    have hfirst := (ih h.tail hcuts).ofToken (t := t) h.ends.1
    rw [← h.drop_eq] at hfirst
    have hall := hfirst.behind_blank hblank hnext
    rw [h.extract_append] at hall
    rw [List.cons_append, pieces, if_neg (h.only t (by simp))]
    simp only [hbehind]
    rw [← List.extract_eq_take_drop, gap_of_blank hblank, List.append_assoc,
      List.map_append]
    exact hall

-- ================================================================== lines

theorem not_mem_of_line {text line : String} (h : line ∈ lines text) :
    '\n' ∉ line.toList := by
  obtain ⟨cs, hcs, rfl⟩ := List.mem_map.1 h
  rw [String.toList_ofList]
  exact not_mem_of_mem_splitOn hcs

/-- A line that can be scanned is drawn as its tokens say. -/
theorem coloured_of_scan {line : String} (hline : '\n' ∉ line.toList)
    {ts : List Token} {eof : Token}
    (hscans : Scans .start line.toList ts eof) :
    Coloured line.toList ts
      ((pieces 0 line.toList (ts ++ [eof])).map Fragment.drawn) :=
  coloured_pieces hline (hscans.lossless [] rfl) hscans.cuts

theorem join_texts (ds : List Drawn) :
    (String.join (ds.map (·.text))).toList
      = ds.flatMap (·.text.toList) := by
  rw [String.toList_join, List.flatMap_map]

/-- How a line is drawn leaves its text as it is, and styles its tokens and
no other part of it. If the line can be scanned, each token is a piece of its
own with the style of its kind, or that of functions for a name before an
opening parenthesis; the comment behind the last of them is one, and all else
is white space without a style. What is drawn as a comment is one, and
stands behind all tokens, so nothing in a token is taken for a comment. A
line that cannot be scanned is one piece without a style. -/
theorem colours_exact (text : String) (number : Nat) (line : String)
    (hline : (lines text)[number]? = some line) :
    let drawn := drawAt (lines text) number
    String.join (drawn.map (·.text)) = line ∧
      (∀ e, scan line = .error e → drawn = [⟨"", line⟩]) ∧
      ∀ tokens, scan line = .ok tokens → ∃ ts eof, tokens = ts ++ [eof] ∧
        eof.kind = .endOfText ∧ (∀ t ∈ ts, t.kind ≠ .endOfText) ∧
        (line = "" → ts = [] ∧ drawn = [⟨"", ""⟩]) ∧
        (line ≠ "" → Coloured line.toList ts drawn) ∧
        ∀ d ∈ drawn, d.style = commentStyle → ∃ code text before,
          line.toList = code ++ '/' :: '/' :: text ∧ drawn = before ++ [d] ∧
            d.text = String.ofList ('/' :: '/' :: text) ∧
            Coloured code ts before := by
  intro drawn
  have hnewline := not_mem_of_line (List.mem_of_getElem? hline)
  have hdrawn : drawn = (highlightLine line).map Fragment.drawn := by
    simp only [drawn, drawAt, highlightAt, hline]
  rw [hdrawn]
  clear_value drawn
  -- An empty line is not scanned.
  by_cases hempty : line = ""
  · subst hempty
    have hscan : scan "" = .ok [⟨.endOfText, "", .start⟩] :=
      Scans.done.scanFrom
    rw [hscan]
    refine ⟨rfl, nofun, ?_⟩
    rintro tokens ⟨⟩
    refine ⟨[], _, rfl, rfl, nofun, fun _ => ⟨rfl, rfl⟩,
      fun h => absurd rfl h, fun d hd hcomment => ?_⟩
    rw [List.mem_singleton.1 hd] at hcomment
    exact absurd hcomment (show "" ≠ commentStyle by decide)
  cases hscan : scan line with
  | error e =>
    have hplain : highlightLine line = [⟨.plain, line⟩] := by
      rw [highlightLine, if_neg hempty, hscan]
    rw [hplain]
    exact ⟨by simp [String.join, Fragment.drawn], fun _ _ => rfl, nofun⟩
  | ok tokens =>
    obtain ⟨ts, eof, rfl, hscans⟩ := scans_of_scanFrom _ _ hscan
    have hcoloured := coloured_of_scan hnewline hscans
    have hlossless := hscans.lossless [] rfl
    have hpieces : highlightLine line
        = pieces 0 line.toList (ts ++ [eof]) := by
      rw [highlightLine, if_neg hempty, hscan]
    rw [hpieces]
    refine ⟨String.toList_injective ?_, nofun, ?_⟩
    · rw [join_texts, hcoloured.texts]
    · rintro tokens ⟨⟩
      exact ⟨ts, eof, rfl, hlossless.ends.1, hlossless.only,
        fun h => absurd h hempty, fun _ => hcoloured,
        fun d hd hcomment => hcoloured.comment_last hd hcomment⟩

/-- A keyword, a call, slashes in a string and a comment behind it. -/
theorem colours_exact_quotedSlashes :
    (lines "var a;\nprint f(\"//\"); // a")[1]?
        = some "print f(\"//\"); // a" ∧
      (scan "print f(\"//\"); // a").toOption.map (·.map (·.lexeme))
        = some ["print", "f", "(", "\"//\"", ")", ";", ""] ∧
      drawAt (lines "var a;\nprint f(\"//\"); // a") 1
        = [⟨"bold ansicyan", "print"⟩, ⟨"", " "⟩, ⟨"bold ansiyellow", "f"⟩,
            ⟨"", "("⟩, ⟨"ansigreen", "\"//\""⟩, ⟨"", ")"⟩, ⟨"", ";"⟩,
            ⟨"", " "⟩, ⟨"italic ansigray", "// a"⟩] ∧
      String.join ((drawAt (lines "var a;\nprint f(\"//\"); // a") 1).map
        (·.text)) = "print f(\"//\"); // a" := by
  have hline : (lines "var a;\nprint f(\"//\"); // a")[1]?
      = some "print f(\"//\"); // a" := by
    cbv
  exact ⟨hline, by cbv, by cbv, (colours_exact _ 1 _ hline).1⟩

end Console

end Lox
