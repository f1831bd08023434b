/-
A scan loses nothing. If it succeeds, its tokens are slices of the text,
one behind the other, and what lies before, between and behind them is
white space and comments; their places are counted off the text before
them; and no token could have been longer (`scan_lossless`). All of this
is said of the text and of offsets into it, not of the scanner. The
proof walks along the parts of which the text is made (`Scans`): each
part adds to what is known of the rest of the text, and the place at
which the rest begins is where one arrives by reading what is before.
-/
import Lox.Proofs.Reading.Lexemes

namespace Lox

-- ============================================================ statements

/-- The line and the column as they are counted: the newlines before, and
the characters since the last of them. -/
def Position.Counts (p : Position) (before : List Char) : Prop :=
  p.line = 1 + before.count '\n' ∧
    p.column = 1 + (before.reverse.takeWhile (· != '\n')).length

/-- Whether tokens of this kind are words: an identifier or a keyword. -/
def TokenKind.isWord : TokenKind → Bool
  | identifier | kwAnd | kwClass | kwElse | kwFalse | kwFun | kwFor | kwIf
  | kwNil | kwOr | kwPrint | kwReturn | kwSuper | kwThis | kwTrue | kwVar
  | kwWhile => true
  | _ => false

/-- A token could not have been longer, given the next character. -/
structure Token.Longest (t : Token) (next : Option Char) : Prop where
  /-- A word does not go on. -/
  word : t.kind.isWord = true → ∀ c ∈ next,
    Text.isAlphanumeric c = false ∧ c ≠ '_'
  /-- A number has no more digits. -/
  number : t.kind = .number → ∀ c ∈ next, Text.isDigit c = false
  /-- A number without a fraction does not get one. -/
  fraction : t.kind = .number → '.' ∉ t.lexeme.toList → next ≠ some '.'
  /-- A sign alone is not the beginning of the longer one. -/
  sign : t.kind ∈ [.bang, .equal, .less, .greater] → next ≠ some '='
  /-- A slash is not the beginning of a comment. -/
  slash : t.kind = .slash → next ≠ some '/'

/-- From an offset on, the text without the tokens is gaps. -/
def Gaps (text : List Char) : Nat → List Token → Prop
  | start, [] => Gap (text.drop start) []
  | start, t :: ts =>
      Gap (text.extract start t.pos.offset) (text.drop t.pos.offset) ∧
        Gaps text (t.pos.offset + t.length) ts

/-- The tokens and the end that a scan finds in a text from an offset
on. -/
structure Lossless (text : List Char) (start : Nat) (ts : List Token)
    (eof : Token) : Prop where
  /-- The end stands at the end of the text. -/
  ends : eof.kind = .endOfText ∧ eof.lexeme = "" ∧
    eof.pos.offset = text.length
  /-- There is no other end. -/
  only : ∀ t ∈ ts, t.kind ≠ .endOfText
  /-- Every token is spelled as the text is where it stands. -/
  spelled : ∀ t ∈ ts ++ [eof],
    t.lexeme.toList = text.extract t.pos.offset (t.pos.offset + t.length)
  /-- The tokens stand one behind the other. -/
  ordered : (ts ++ [eof]).Pairwise fun t u =>
    t.pos.offset < u.pos.offset ∧ t.pos.offset + t.length ≤ u.pos.offset
  behind : ∀ t ∈ ts ++ [eof], start ≤ t.pos.offset
  gaps : Gaps text start ts
  placed : ∀ t ∈ ts ++ [eof], t.pos.Counts (text.take t.pos.offset)
  longest : ∀ t ∈ ts, t.Longest text[t.pos.offset + t.length]?

-- ============================================================== the place

/-- The place behind some characters is counted off them. -/
theorem Position.counts_after (cs : List Char) :
    (start.after cs).Counts cs := by
  refine ⟨line_after start cs, ?_⟩
  rw [← cs.reverse_reverse]
  induction cs.reverse with
  | nil => rfl
  | cons c before ih =>
    rw [List.reverse_cons, after_append, after_cons, after_nil, advance,
      ← List.reverse_cons]
    rw [List.reverse_reverse] at ih ⊢
    by_cases hc : c = '\n'
    · simp [hc]
    · simp [hc, ih]
      omega

-- ======================================================== longest matches

theorem isWord_wordKind (word : String) : (wordKind word).isWord = true := by
  unfold wordKind
  split <;> rfl

theorem Cuts.kind_ne_end {kind : TokenKind} {lexeme rest : List Char}
    (h : Cuts kind lexeme rest) : kind ≠ .endOfText := by
  cases h with
  | punctuation hkind => exact punctuation?_ne_end hkind
  | alone hkinds => exact (extensible?_ne_end hkinds).1
  | extended hkinds => exact (extensible?_ne_end hkinds).2
  | word => exact wordKind_ne_end _
  | _ => nofun

/-- A token of a kind that says nothing about what comes next. -/
theorem Token.longest_of_kind {t : Token} {next : Option Char}
    (h : (t.kind.isWord || [.number, .bang, .equal, .less, .greater,
      .slash].contains t.kind) = false) : t.Longest next := by
  simp only [Bool.or_eq_false_iff, List.contains_eq_mem,
    decide_eq_false_iff_not, List.mem_cons, not_or] at h
  obtain ⟨hword, hnumber, hbang, hequal, hless, hgreater, hslash, -⟩ := h
  refine ⟨fun h => ?_, fun h => absurd h hnumber,
    fun h => absurd h hnumber, fun h => ?_, fun h => absurd h hslash⟩
  · rw [hword] at h
    cases h
  · simp [hbang, hequal, hless, hgreater] at h

/-- A token is cut off where it could not go on. -/
theorem Cuts.longest {kind : TokenKind} {lexeme rest : List Char}
    (h : Cuts kind lexeme rest) (p : Position) :
    Token.Longest ⟨kind, String.ofList lexeme, p⟩ rest.head? := by
  cases h with
  | slash hnext => exact ⟨nofun, nofun, nofun, by simp, fun _ => hnext⟩
  | punctuation hkind =>
    refine Token.longest_of_kind ?_
    unfold punctuation? at hkind
    split at hkind <;> cases hkind <;> rfl
  | alone hkinds hnext =>
    unfold extensible? at hkinds
    split at hkinds <;> cases hkinds <;>
      exact ⟨nofun, nofun, nofun, fun _ => hnext, nofun⟩
  | extended hkinds =>
    refine Token.longest_of_kind ?_
    unfold extensible? at hkinds
    split at hkinds <;> cases hkinds <;> rfl
  | string => exact Token.longest_of_kind rfl
  | whole _ _ hnext hpoint =>
    exact ⟨nofun, fun _ => hnext, fun _ _ => hpoint, by simp, nofun⟩
  | fraction _ _ _ _ hnext =>
    refine ⟨nofun, fun _ => hnext, fun _ hpoint => ?_, by simp, nofun⟩
    exact absurd (by simp) hpoint
  | @word first more _ _ _ hnext =>
    -- A word has none of the kinds that the other conditions are about.
    have hword := isWord_wordKind (String.ofList (first :: more))
    refine ⟨fun _ c hc => ?_, ?_, ?_, ?_, ?_⟩
    · simpa [continuesName] using hnext c hc
    all_goals
      simp only
      generalize wordKind (String.ofList (first :: more)) = kind at hword
      intro hkind
      first
        | (subst hkind; cases hword)
        | (simp only [List.mem_cons, List.not_mem_nil, or_false] at hkind
           rcases hkind with rfl | rfl | rfl | rfl <;> cases hword)

-- ================================================================ the run

variable {text : List Char} {start : Nat} {ts : List Token} {eof : Token}

theorem offset_after_start (before : List Char) :
    (Position.start.after before).offset = before.length := by
  rw [Position.offset_after]
  exact Nat.zero_add _

theorem lossless_done (text : List Char) :
    Lossless text text.length []
      ⟨.endOfText, "", Position.start.after text⟩ where
  ends := ⟨rfl, rfl, offset_after_start text⟩
  only := nofun
  spelled := by simp [Token.length, List.extract_eq_take_drop]
  ordered := by simp
  behind := by simp [offset_after_start]
  gaps := by simpa [Gaps] using Gap.none
  placed := by
    simpa [offset_after_start] using Position.counts_after text
  longest := nofun

/-- A gap in front joins the first gap. -/
theorem Lossless.gap {before gap rest : List Char}
    (h : Lossless (before ++ (gap ++ rest)) (before.length + gap.length)
      ts eof)
    (hgap : Gap gap rest) :
    Lossless (before ++ (gap ++ rest)) before.length ts eof := by
  refine { h with behind := fun t ht => ?_, gaps := ?_ }
  · exact Nat.le_trans (Nat.le_add_right _ _) (h.behind t ht)
  have hgaps := h.gaps
  cases ts with
  | nil =>
    rw [Gaps, ← List.length_append, ← List.append_assoc,
      List.drop_left] at hgaps
    rw [Gaps, List.drop_left]
    rw [← List.append_nil rest] at hgap
    exact hgap.append hgaps
  | cons t ts =>
    obtain ⟨hfirst, hmore⟩ := hgaps
    refine ⟨?_, hmore⟩
    have hle := h.behind t (List.mem_append_left _ List.mem_cons_self)
    obtain ⟨n, hn⟩ := Nat.exists_eq_add_of_le hle
    -- Up to the first token there is the new gap, and then what was there
    -- before.
    have hlong : (before ++ (gap ++ rest)).extract
        (before.length + gap.length) t.pos.offset = rest.take n := by
      rw [List.extract_eq_take_drop, ← List.length_append,
        ← List.append_assoc, List.drop_left, hn, List.length_append,
        Nat.add_sub_cancel_left]
    have hshort : (before ++ (gap ++ rest)).extract before.length t.pos.offset
        = gap ++ rest.take n := by
      rw [List.extract_eq_take_drop, List.drop_left, hn, Nat.add_assoc,
        Nat.add_sub_cancel_left, List.take_length_add_append]
    have hrest : (before ++ (gap ++ rest)).drop t.pos.offset
        = rest.drop n := by
      rw [hn, ← List.length_append, ← List.append_assoc,
        List.drop_length_add_append]
    rw [hlong, hrest] at hfirst
    rw [hshort, hrest]
    refine Gap.append ?_ hfirst
    rwa [List.take_append_drop]

/-- A token in front stands where the rest begins. -/
theorem Lossless.token {before lexeme rest : List Char} {kind : TokenKind}
    (h : Lossless (before ++ (lexeme ++ rest))
      (before.length + lexeme.length) ts eof)
    (hcuts : Cuts kind lexeme rest) :
    Lossless (before ++ (lexeme ++ rest)) before.length
      (⟨kind, String.ofList lexeme, Position.start.after before⟩ :: ts)
      eof := by
  have hpos : 0 < lexeme.length := List.length_pos_iff.2 hcuts.ne_nil
  refine
    { ends := h.ends
      only := List.forall_mem_cons.2 ⟨hcuts.kind_ne_end, h.only⟩
      spelled := List.forall_mem_cons.2 ⟨?_, h.spelled⟩
      ordered := List.pairwise_cons.2 ⟨fun u hu => ?_, h.ordered⟩
      behind := List.forall_mem_cons.2 ⟨?_, fun u hu => ?_⟩
      gaps := ⟨?_, ?_⟩
      placed := List.forall_mem_cons.2 ⟨?_, h.placed⟩
      longest := List.forall_mem_cons.2 ⟨?_, h.longest⟩ }
  · simp [Token.length, offset_after_start, List.extract_eq_take_drop]
  · have hbehind := h.behind u hu
    simp only [Token.length, offset_after_start, String.length_ofList]
    omega
  · exact Nat.le_of_eq (offset_after_start before).symm
  · exact Nat.le_trans (Nat.le_add_right _ _) (h.behind u hu)
  · rw [offset_after_start, List.extract_eq_take_drop, Nat.sub_self]
    exact .none
  · simp only [Token.length, offset_after_start, String.length_ofList]
    exact h.gaps
  · simp only [offset_after_start, List.take_left]
    exact Position.counts_after before
  · have hnext : (before ++ (lexeme ++ rest))[before.length + lexeme.length]?
        = rest.head? := by
      rw [← List.append_assoc, ← List.length_append,
        List.getElem?_append_right (Nat.le_refl _), Nat.sub_self,
        List.head?_eq_getElem?]
    simp only [Token.length, offset_after_start, String.length_ofList, hnext]
    exact hcuts.longest _

/-- Along the parts of a text, behind what was read before. -/
theorem Scans.lossless {p : Position} {cs : List Char}
    (h : Scans p cs ts eof) (before : List Char)
    (hp : p = Position.start.after before) :
    Lossless (before ++ cs) before.length ts eof := by
  induction h generalizing before with
  | done =>
    subst hp
    rw [List.append_nil]
    exact lossless_done before
  | gap hgap _ ih =>
    have hrest := ih (before ++ _)
      (by rw [hp, ← Position.after_append])
    rw [List.append_assoc, List.length_append] at hrest
    exact hrest.gap hgap
  | token hcuts _ ih =>
    have hrest := ih (before ++ _)
      (by rw [hp, ← Position.after_append])
    rw [List.append_assoc, List.length_append] at hrest
    rw [hp]
    exact hrest.token hcuts

/-- Every text is scanned to a fault or to an exact account of itself. -/
theorem scan_lossless (source : String) :
    (∃ e, scan source = .error e) ∨
      ∃ ts eof, scan source = .ok (ts ++ [eof]) ∧
        Lossless source.toList 0 ts eof := by
  cases hscan : scan source with
  | error e => exact .inl ⟨e, rfl⟩
  | ok tokens =>
    obtain ⟨ts, eof, rfl, hscans⟩ := scans_of_scanFrom _ _ hscan
    exact .inr ⟨ts, eof, rfl, hscans.lossless [] rfl⟩

end Lox
