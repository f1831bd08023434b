/-
Layout does not matter. If the lexemes of a text are written down again
with other white space and other comments between them, at least one
character of white space behind each, they are the same tokens at other
places, and what is read from them is the same up to these places
(`readProgram_relaid`).

# How it is shown

That a lexeme is a token depends on the next character alone, and white
space makes no token longer (`Cuts.before_blank`). So the second text is
made of the same tokens (`scans_spread`). The tokens of the first stand
at places of their own, so one move of places takes each to where it
stands in the second (`exists_move`), and the rest is what is known of
reading tokens that stand elsewhere (`parse_displaced`).
-/
import Mathlib
import Lox.Proofs.Reading.Lossless
import Lox.Proofs.Reading.Displaced

namespace Lox

-- ============================================================ statements

/-- What may be written between lexemes: white space, and comments that
are ended by a newline. -/
inductive Filler : List Char → Prop
  | none : Filler []
  | blank {c : Char} {filler : List Char} (hc : Blank c)
      (h : Filler filler) : Filler (c :: filler)
  | comment {text filler : List Char} (hline : ∀ d ∈ text, d ≠ '\n')
      (h : Filler filler) : Filler ('/' :: '/' :: text ++ '\n' :: filler)

/-- Fillers, one behind each lexeme, that keep the lexemes apart: each
begins with white space, and none but the last is empty. -/
structure Separates (behind : List (List Char)) : Prop where
  filler : ∀ w ∈ behind, Filler w
  blank : ∀ w ∈ behind, ∀ c ∈ w.head?, Blank c
  between : ∀ w ∈ behind.dropLast, w ≠ []

/-- The lexemes, each with its filler behind it. -/
def spread (lexemes : List String) (behind : List (List Char)) : List Char :=
  (List.zipWith (fun x w => x.toList ++ w) lexemes behind).flatten

/-- What a token is, wherever it stands. -/
def Token.said (t : Token) : TokenKind × String × String × Float :=
  (t.kind, t.lexeme, t.contents, t.value)

theorem Token.said_eq {t t' : Token} :
    t.said = t'.said ↔ t.kind = t'.kind ∧ t.lexeme = t'.lexeme := by
  constructor
  · intro h
    exact ⟨congrArg Prod.fst h, congrArg (·.2.1) h⟩
  · rintro ⟨hkind, hlexeme⟩
    rw [said, said, contents, contents, value, value, hkind, hlexeme]

-- ================================================================ fillers

theorem Filler.gap {filler : List Char} (h : Filler filler)
    (after : List Char) : Gap filler after := by
  induction h with
  | none => exact .none
  | blank hc _ ih => exact .blank hc ih
  | comment hline _ ih =>
    exact .comment hline (by simp) (.blank (by simp [Blank]) ih)

/-- A class of characters that leaves out white space. -/
theorem Blank.eq_false {p : Char → Bool} {c : Char} (hc : Blank c)
    (hp : (" \t\r\n".toList.all fun d => !p d) = true) : p c = false := by
  simp only [String.reduceToList, List.all_cons, List.all_nil, Bool.and_true,
    Bool.and_eq_true, Bool.not_eq_true'] at hp
  rcases hc with rfl | rfl | rfl | rfl
  · exact hp.1
  · exact hp.2.1
  · exact hp.2.2.1
  · exact hp.2.2.2

/-- White space makes no token longer. -/
theorem Cuts.before_blank {kind : TokenKind} {lexeme rest after : List Char}
    (h : Cuts kind lexeme rest) (hafter : ∀ c ∈ after.head?, Blank c) :
    Cuts kind lexeme after := by
  have hne {d : Char} (hd : ¬ Blank d) : after.head? ≠ some d :=
    fun heq => hd (hafter d heq)
  have hdigit : ∀ d ∈ after.head?, Text.isDigit d = false :=
    fun d hd => (hafter d hd).eq_false (by decide)
  cases h with
  | slash => exact .slash (hne (by simp [Blank]))
  | punctuation hkind => exact .punctuation hkind
  | alone hkinds => exact .alone hkinds (hne (by simp [Blank]))
  | extended hkinds => exact .extended hkinds
  | string hcontents => exact .string hcontents
  | whole hfirst hdigits =>
    exact .whole hfirst hdigits hdigit (hne (by simp [Blank]))
  | fraction hfirst hdigits hsome hdecimals =>
    exact .fraction hfirst hdigits hsome hdecimals hdigit
  | word hfirst hmore =>
    exact .word hfirst hmore
      fun d hd => (hafter d hd).eq_false (by decide)

-- =============================================================== scanning

/-- Every token of a text was cut off it. -/
theorem Scans.cuts {p : Position} {cs : List Char} {ts : List Token}
    {eof : Token} (h : Scans p cs ts eof) :
    ∀ t ∈ ts, ∃ rest, Cuts t.kind t.lexeme.toList rest := by
  induction h with
  | done => nofun
  | gap _ _ ih => exact ih
  | @token p kind lexeme rest ts eof hcuts _ ih =>
    refine List.forall_mem_cons.2 ⟨⟨rest, ?_⟩, ih⟩
    simpa using hcuts

theorem Separates.tail {w : List Char} {behind : List (List Char)}
    (h : Separates (w :: behind)) : Separates behind where
  filler := (List.forall_mem_cons.1 h.filler).2
  blank := (List.forall_mem_cons.1 h.blank).2
  between w' hw' := by
    cases behind with
    | nil => cases hw'
    | cons w'' behind => exact h.between w' (List.mem_cons_of_mem _ hw')

/-- Behind a lexeme that is kept apart, the text ends or goes on with white
space. -/
theorem Separates.blank_behind {w : List Char} {behind : List (List Char)}
    (h : Separates (w :: behind)) (lexemes : List String)
    (hlength : behind.length = lexemes.length) :
    ∀ c ∈ (w ++ spread lexemes behind).head?, Blank c := by
  intro c hc
  cases w with
  | cons d w => exact h.blank _ List.mem_cons_self c hc
  | nil =>
    cases behind with
    | cons w' behind => exact absurd rfl (h.between [] List.mem_cons_self)
    | nil =>
      rw [List.eq_nil_of_length_eq_zero hlength.symm] at hc
      cases hc

/-- Lexemes that are kept apart are the tokens that they were. -/
theorem scans_spread {ts : List Token}
    (hcuts : ∀ t ∈ ts, ∃ rest, Cuts t.kind t.lexeme.toList rest)
    {behind : List (List Char)} (hbehind : Separates behind)
    (hlength : behind.length = ts.length) (p : Position) :
    ∃ ts' eof', Scans p (spread (ts.map (·.lexeme)) behind) ts' eof' ∧
      ts'.map Token.said = ts.map Token.said ∧
      eof'.kind = .endOfText ∧ eof'.lexeme = "" := by
  induction ts generalizing behind p with
  | nil => exact ⟨[], _, .done, rfl, rfl, rfl⟩
  | cons t ts ih =>
    obtain ⟨⟨rest, ht⟩, hts⟩ := List.forall_mem_cons.1 hcuts
    cases behind with
    | nil => cases hlength
    | cons w behind =>
      have hlength' : behind.length = ts.length := Nat.succ.inj hlength
      have hblank := hbehind.blank_behind (ts.map (·.lexeme))
        (by rwa [List.length_map])
      have hfiller := hbehind.filler w List.mem_cons_self
      obtain ⟨ts', eof', hscans, hsaid, heof⟩ := ih hts hbehind.tail hlength'
        ((p.after t.lexeme.toList).after w)
      have hscans' := (hscans.gap (hfiller.gap _)).token
        (ht.before_blank hblank)
      rw [String.ofList_toList, ← List.append_assoc] at hscans'
      refine ⟨_, eof', hscans', ?_, heof⟩
      rw [List.map_cons, List.map_cons, hsaid]
      exact congrArg (· :: _) (Token.said_eq.2 ⟨rfl, rfl⟩)

-- ================================================================= places

/-- Tokens that say the same are the same elsewhere, if no two of them
stand at one place. -/
theorem exists_move {tokens tokens' : List Token}
    (hplaces : (tokens.map (·.pos)).Nodup)
    (hsaid : tokens'.map Token.said = tokens.map Token.said) :
    ∃ move : Position → Position,
      tokens' = tokens.map (·.moved move) := by
  induction tokens generalizing tokens' with
  | nil => exact ⟨id, List.map_eq_nil_iff.1 hsaid⟩
  | cons t ts ih =>
    obtain ⟨t', ts', rfl, ht, hts⟩ := List.map_eq_cons_iff.1 hsaid
    rw [List.map_cons, List.nodup_cons] at hplaces
    obtain ⟨move, rfl⟩ := ih hplaces.2 hts
    obtain ⟨hkind, hlexeme⟩ := Token.said_eq.1 ht
    -- No other token stands where the first one does, so it can be moved by
    -- itself.
    refine ⟨fun p => if p = t.pos then t'.pos else move p, ?_⟩
    rw [List.map_cons]
    congr 1
    · simp only [Token.moved, if_true, ← hkind, ← hlexeme]
    · refine List.map_congr_left fun u hu => ?_
      have hne : u.pos ≠ t.pos :=
        fun heq => hplaces.1 (heq ▸ List.mem_map_of_mem hu)
      simp only [Token.moved, if_neg hne]

/-- No two tokens of a text stand at one place. -/
theorem Lossless.nodup_pos {text : List Char} {start : Nat} {ts : List Token}
    {eof : Token} (h : Lossless text start ts eof) :
    ((ts ++ [eof]).map (·.pos)).Nodup := by
  refine List.pairwise_map.2 (h.ordered.imp fun hlt heq => ?_)
  rw [heq] at hlt
  exact Nat.lt_irrefl _ hlt.1

-- ================================================================= layout

/-- Layout does not matter: from the lexemes of a text with other fillers
before, between and behind them the same tokens are made, and the same
is read, but for the places. The errors, where there are any, are the
same in the same order, each at the token that it was at. -/
theorem readProgram_relaid {source source' : String} {ts : List Token}
    {eof : Token} (hscan : scan source = .ok (ts ++ [eof]))
    {first : List Char} (hfirst : Filler first) {behind : List (List Char)}
    (hbehind : Separates behind) (hlength : behind.length = ts.length)
    (hsource : source'.toList = first ++ spread (ts.map (·.lexeme)) behind)
    (n : Nat) :
    ∃ (tokens' : List Token) (move : Position → Position),
      scan source' = .ok tokens' ∧
        tokens'.map Token.said = (ts ++ [eof]).map Token.said ∧
        tokens'.map (·.pos) = (ts ++ [eof]).map (move ·.pos) ∧
        (readProgram source' n).2 = (readProgram source n).2 ∧
        ((∃ program, (readProgram source n).1 = .ok program ∧
            (readProgram source' n).1 = .ok (Stmt.mapAll
              (fun node => { node with pos := move node.pos }) program)) ∨
          ∃ errors, (readProgram source n).1 = .error (.syntactic errors) ∧
            (readProgram source' n).1
              = .error (.syntactic (errors.map (.moved move))) ∧
            ∀ e ∈ errors.toList, (∃ t ∈ ts ++ [eof], e.pos = t.pos) ∧
              ∀ opened, e.fault = .openGroup opened →
                ∃ t ∈ ts ++ [eof], opened = t.pos) := by
  obtain ⟨ts₀, eof₀, htokens, hscans⟩ := scans_of_scanFrom _ _ hscan
  obtain ⟨rfl, rfl⟩ : ts = ts₀ ∧ eof = eof₀ := by
    obtain ⟨hts, heof⟩ := List.append_inj' htokens rfl
    exact ⟨hts, List.head_eq_of_cons_eq heof⟩
  have hlossless := hscans.lossless [] rfl
  obtain ⟨heof, hend, -⟩ := hlossless.ends
  obtain ⟨ts', eof', hscans', hsaid, heof', hend'⟩ :=
    scans_spread hscans.cuts hbehind hlength (Position.start.after first)
  have hscan' : scan source' = .ok (ts' ++ [eof']) := by
    rw [scan, hsource]
    exact (hscans'.gap (hfirst.gap _)).scanFrom
  have hsaid' : (ts' ++ [eof']).map Token.said
      = (ts ++ [eof]).map Token.said := by
    rw [List.map_append, List.map_append, hsaid, List.map_singleton,
      List.map_singleton,
      Token.said_eq.2 ⟨heof'.trans heof.symm, hend'.trans hend.symm⟩]
  -- The parser cannot tell the tokens from the same ones at other places.
  obtain ⟨move, hmove⟩ := exists_move hlossless.nodup_pos hsaid'
  have hparse := parse_displaced move (.inr ⟨ts, eof, rfl, heof⟩) n 0
  rw [← hmove, Nat.add_zero] at hparse
  refine ⟨_, move, hscan', hsaid', ?_, ?_⟩
  · rw [hmove, List.map_map]
    rfl
  unfold readProgram
  rw [hscan, hscan']
  simp only [hparse]
  refine ⟨rfl, ?_⟩
  cases hresult : (parse (ts ++ [eof]) n).result with
  | ok program =>
    refine .inl ⟨program, rfl, ?_⟩
    rw [Parsed.displaced, hresult]
    rfl
  | error errors =>
    refine .inr ⟨errors, rfl, ?_, pos_of_parse_error heof hresult⟩
    rw [Parsed.displaced, hresult]
    rfl

theorem readProgram_relaid_openGroup :
    let source := "-(a"
    let source' := "- (\t//=\na"
    source'.toList = spread ["-", "(", "a"] [[' '], "\t//=\n".toList, []] ∧
      (readProgram source 1).1
        = .error (.syntactic ⟨⟨.openGroup ⟨1, 2, 1⟩, ⟨1, 4, 3⟩⟩, []⟩) ∧
      (readProgram source' 1).1
        = .error (.syntactic ⟨⟨.openGroup ⟨1, 3, 2⟩, ⟨2, 2, 9⟩⟩, []⟩) := by
  intro source source'
  have hsource' : source'.toList
      = [] ++ spread ["-", "(", "a"] [[' '], "\t//=\n".toList, []] := by
    decide
  have hscan : scan source = .ok ([⟨.minus, "-", ⟨1, 1, 0⟩⟩,
      ⟨.leftParen, "(", ⟨1, 2, 1⟩⟩, ⟨.identifier, "a", ⟨1, 3, 2⟩⟩]
      ++ [⟨.endOfText, "", ⟨1, 4, 3⟩⟩]) := by
    cbv
  have hscan' : scan source' = .ok [⟨.minus, "-", ⟨1, 1, 0⟩⟩,
      ⟨.leftParen, "(", ⟨1, 3, 2⟩⟩, ⟨.identifier, "a", ⟨2, 1, 8⟩⟩,
      ⟨.endOfText, "", ⟨2, 2, 9⟩⟩] := by
    cbv
  have hread : (readProgram source 1).1
      = .error (.syntactic ⟨⟨.openGroup ⟨1, 2, 1⟩, ⟨1, 4, 3⟩⟩, []⟩) := by
    cbv
  have hline : Filler ('/' :: '/' :: ['='] ++ '\n' :: []) :=
    .comment (by simp) .none
  have hcomment : Filler "\t//=\n".toList :=
    .blank (.inr (.inl rfl)) hline
  have hseparates : Separates [[' '], "\t//=\n".toList, []] := by
    refine ⟨?_, ?_, by simp⟩
    · simp only [List.forall_mem_cons, List.not_mem_nil, false_imp_iff,
        implies_true, and_true]
      exact ⟨.blank (.inl rfl) .none, hcomment, .none⟩
    · simp [Blank]
  obtain ⟨tokens', move, htokens, -, hplaces, -, hresult⟩ :=
    readProgram_relaid hscan .none hseparates rfl hsource' 1
  rw [hscan'] at htokens
  cases htokens
  simp only [List.map_cons, List.map_nil, List.cons_append, List.nil_append,
    List.cons.injEq, and_true] at hplaces
  obtain ⟨-, hopened, -, hend⟩ := hplaces
  refine ⟨hsource', hread, ?_⟩
  rcases hresult with ⟨program, hprogram, -⟩ | ⟨errors, herrors, hmoved, -⟩
  · rw [hread] at hprogram
    cases hprogram
  · rw [hread] at herrors
    cases herrors
    rw [hmoved, hopened, hend]
    rfl

end Lox
