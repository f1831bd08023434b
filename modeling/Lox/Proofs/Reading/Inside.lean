/-
Inside an expression. Of the tokens that end a statement, frame one or
open one, none is part of an expression, so a reader of expressions takes
others only: whatever it is given, it comes to a stand before the
statement is over. It reports nothing, and if it is refused, then at the
token that it has come to, or at the sign of an assignment whose value it
has read since (`SyntaxError.Refuses`). And it looks one token ahead: what
it comes to is decided by the tokens that it takes and the next
(`Inside.ahead`).

# How it is shown

`Plain r c` says all this of a reader at a cursor. It is kept when readers
are put together, and by induction on the budget it holds of every reader
of expressions at every cursor. It says nothing where the budget is used
up.
-/
import Lox.Proofs.Reading.Parse

namespace Lox

-- ================================================================ tokens

/-- Whether a token of this kind is part of no expression: it ends a
statement or a text, it is a brace, or it opens a statement. -/
def TokenKind.outside : TokenKind → Bool
  | semicolon | leftBrace | rightBrace | endOfText => true
  | kind => kind.opensStatement

/-- The kinds of token that a primary expression begins with. -/
def TokenKind.primaries : List TokenKind :=
  [.number, .string, .kwTrue, .kwFalse, .kwNil, .identifier, .leftParen]

/-- A sign in front of an operand stands in an expression. -/
theorem UnaryOp.inside {kind : TokenKind} {op : UnaryOp}
    (h : UnaryOp.ofKind? kind = some op) : kind.outside = false := by
  cases kind <;> first | rfl | cases h

/-- An operator between two operands stands in an expression. -/
theorem Level.inside {ℓ : Level} {kind : TokenKind} {op : Connective}
    (h : ℓ.connective? kind = some op) : kind.outside = false := by
  cases kind <;> first | rfl | (cases ℓ <;> cases h)

/-- A literal stands in an expression. -/
theorem Literal.inside {t : Token} {value : Literal}
    (h : Literal.ofToken? t = some value) : t.kind.outside = false := by
  unfold Literal.ofToken? at h
  split at h
  case h_6 => cases h
  all_goals
    rename_i hkind
    rw [hkind]
    rfl

/-- What is no literal, no name and no parenthesis does not begin a primary
expression, so it is refused there. -/
theorem Literal.kind_of_ofToken?_eq_none {t : Token}
    (h : Literal.ofToken? t = none) (hname : t.kind ≠ .identifier)
    (hopening : t.kind ≠ .leftParen) : t.kind ∉ TokenKind.primaries := by
  unfold Literal.ofToken? at h
  split at h <;> simp_all [TokenKind.primaries]

/-- What stands in an expression is not the end of the text, so it can be
taken. -/
theorem TokenKind.ne_end_of_inside {kind : TokenKind}
    (h : kind.outside = false) : kind ≠ .endOfText := by
  rintro rfl
  cases h

/-- The token that a reader looks at before these. -/
def tokenAt : List Token → Token
  | [] => ⟨.endOfText, "", .start⟩
  | t :: _ => t

/-- What a reader looks at depends on the tokens ahead alone. -/
theorem Cursor.current_eq (c : Cursor) : c.current = tokenAt c.rest := by
  obtain ⟨rest, n, errors⟩ := c
  cases rest <;> rfl

/-- It depends on the first of them. -/
theorem tokenAt_congr {ts ts' : List Token} (h : ts.head? = ts'.head?) :
    tokenAt ts = tokenAt ts' := by
  cases ts <;> cases ts' <;> simp_all [tokenAt]

-- ================================================================ errors

/-- What a fault says about the kind of the token at which it was met:
which one it is, and that it is not the one that is missing. -/
def SyntaxFault.Describes : SyntaxFault → TokenKind → Prop
  | noExpression found, kind => found = kind ∧ kind ∉ TokenKind.primaries
  | noName _ found, kind => found = kind ∧ kind ≠ .identifier
  | noOpening _ found, kind => found = kind ∧ kind ≠ .leftParen
  | noClosing _ found, kind => found = kind ∧ kind ≠ .rightParen
  | noEnd _ found, kind => found = kind ∧ kind ≠ .semicolon
  | noBody found, kind => found = kind ∧ kind ≠ .leftBrace
  | openBlock, kind => kind = .endOfText
  | openGroup _, kind => kind ≠ .rightParen
  | invalidTarget, kind => kind = .equal

/-- The fault says that a token of this kind is missing, which is neither
a fault of an assignment nor of a block. -/
def SyntaxFault.Misses (fault : TokenKind → SyntaxFault)
    (wanted : TokenKind) : Prop :=
  ∀ found, found ≠ wanted → (fault found).Describes found ∧
    fault found ≠ .invalidTarget ∧ fault found ≠ .openBlock

/-- A name that is missing is reported with the kind of what is there instead,
and the fault is none of an assignment or a block. -/
theorem SyntaxFault.misses_name (role : NameRole) :
    Misses (.noName role) .identifier :=
  fun _ hfound => ⟨⟨rfl, hfound⟩, nofun, nofun⟩

/-- An opening parenthesis that is missing is reported in the same way. -/
theorem SyntaxFault.misses_opening (role : OpeningRole) :
    Misses (.noOpening role) .leftParen :=
  fun _ hfound => ⟨⟨rfl, hfound⟩, nofun, nofun⟩

/-- A closing parenthesis that is missing is reported in the same way. -/
theorem SyntaxFault.misses_closing (role : ClosingRole) :
    Misses (.noClosing role) .rightParen :=
  fun _ hfound => ⟨⟨rfl, hfound⟩, nofun, nofun⟩

/-- So is a semicolon, which is outside of every expression itself. -/
theorem SyntaxFault.misses_end (role : EndRole) :
    Misses (.noEnd role) .semicolon :=
  fun _ hfound => ⟨⟨rfl, hfound⟩, nofun, nofun⟩

/-- The error has the place of the token and describes it. -/
def SyntaxError.StandsAt (e : SyntaxError) (t : Token) : Prop :=
  e.pos = t.pos ∧ e.fault.Describes t.kind

/-- Where a reader stands that was refused with this error: what it has
taken since it met the fault, and what is left. An assignment to
something else than a name is refused behind its value, at its sign. -/
inductive SyntaxError.Refuses (e : SyntaxError) :
    List Token → List Token → Prop where
  | here {rest : List Token} :
      e.fault ≠ .invalidTarget → e.StandsAt (tokenAt rest) →
      e.Refuses [] rest
  | assignment {sign : Token} {taken rest : List Token} {budget : Nat}
      {value : Expr} {c c' : Cursor} :
      e.fault = .invalidTarget → e.StandsAt sign →
      Reader.expression budget c = .ok value c' →
      c.rest = taken ++ rest → c'.rest = rest →
      (∀ t ∈ taken, t.kind.outside = false) →
      e.Refuses (sign :: taken) rest

namespace Reader

-- =============================================================== outcomes

variable {α β : Type} {r r' : Reader α} {f : α → Reader β} {c c₁ c₂ : Cursor}
  {taken taken' : List Token} {a : α}

/-- The outcome, with other tokens left. -/
def leaving (rest : List Token) :
    EStateM.Result Stop Cursor α → EStateM.Result Stop Cursor α
  | .ok a c => .ok a { c with rest }
  | .error stop c => .error stop { c with rest }

/-- The reader comes from the one cursor to the other within an
expression. -/
structure Inside (r : Reader α) (c : Cursor) (taken : List Token)
    (c' : Cursor) : Prop where
  rest : c.rest = taken ++ c'.rest
  inside : ∀ t ∈ taken, t.kind.outside = false
  errors : c'.errors = c.errors
  /-- It looks no further than at the next token. -/
  ahead : ∀ rest, rest.head? = c'.rest.head? →
    r { c with rest := taken ++ rest } = leaving rest (r c)

namespace Inside

/-- What is decided by the token at the cursor is decided alike before
the same token. -/
theorem congr (hr : ∀ c', c'.rest.head? = c.rest.head? → r c' = r' c')
    (h : Inside r' c taken c₁) : Inside r c taken c₁ where
  rest := h.rest
  inside := h.inside
  errors := h.errors
  ahead rest hrest := by
    rw [hr c rfl, hr _ (by simp [h.rest, hrest])]
    exact h.ahead rest hrest

/-- Two readers one behind the other take what each takes. The first looks at
most at the first token of the second. -/
theorem bind (hr : r c = .ok a c₁) (h : Inside r c taken c₁)
    (hf : Inside (f a) c₁ taken' c₂) :
    Inside (r >>= f) c (taken ++ taken') c₂ where
  rest := by rw [h.rest, hf.rest, List.append_assoc]
  inside t ht := (List.mem_append.1 ht).elim (h.inside t) (hf.inside t)
  errors := hf.errors.trans h.errors
  ahead rest hrest := by
    have hstep := h.ahead (taken' ++ rest) (by simp [hf.rest, hrest])
    rw [hr] at hstep
    rw [List.append_assoc, bind_of_ok hstep, bind_of_ok hr]
    exact hf.ahead rest hrest

/-- A reader that is stopped keeps what follows from being read. -/
theorem stopped {stop : Stop} (hr : r c = .error stop c₁)
    (h : Inside r c taken c₁) : Inside (r >>= f) c taken c₁ where
  rest := h.rest
  inside := h.inside
  errors := h.errors
  ahead rest hrest := by
    have hstep := h.ahead rest hrest
    rw [hr] at hstep
    rw [Sequencing.bind_of_error hstep, Sequencing.bind_of_error hr]
    rfl

/-- A token that may stand in an expression. -/
theorem take (h : c.current.kind.outside = false) :
    Inside take c [c.current] c.advance where
  rest := Cursor.rest_eq_current_cons_advance (TokenKind.ne_end_of_inside h)
  inside := by simpa using h
  errors := by simp
  ahead rest _ := by
    show EStateM.Result.ok c.current
        (Cursor.advance ⟨c.current :: rest, c.nextId, c.errors⟩)
      = .ok c.current ⟨rest, c.advance.nextId, c.advance.errors⟩
    rw [advance_cons (TokenKind.ne_end_of_inside h), c.nextId_advance,
      c.errors_advance]

/-- A first token, with what follows it. -/
theorem behind_take {f : Token → Reader β}
    (h : c.current.kind.outside = false)
    (hf : Inside (f c.current) c.advance taken c₁) :
    Inside (Reader.take >>= f) c (c.current :: taken) c₁ :=
  bind (r := Reader.take) rfl (take h) hf

/-- A refusal takes nothing. -/
theorem refuse (fault : SyntaxFault) (pos : Position) :
    Inside (refuse fault pos : Reader α) c [] c :=
  ⟨rfl, by simp, rfl, fun _ _ => rfl⟩

end Inside

/-- Of an outcome within an expression: what was taken goes with the cursor
that was come to, and a refusal stands where it should. -/
def Holds (P : List Token → Cursor → Prop) :
    EStateM.Result Stop Cursor α → Prop
  | .ok _ c => ∃ taken, P taken c
  | .error (.refused e) c => ∃ taken since,
      P (taken ++ since) c ∧ e.Refuses since c.rest ∧ e.fault ≠ .openBlock
  | .error .exhausted _ => True

/-- At this cursor the reader stays within an expression, unless it uses
up its budget. -/
def Plain (r : Reader α) (c : Cursor) : Prop := Holds (Inside r c) (r c)

namespace Plain

-- ============================================================ small steps

/-- What is there at once takes nothing. -/
theorem pure (a : α) : Plain (pure a) c :=
  ⟨[], rfl, by simp, rfl, fun _ _ => rfl⟩

/-- Nothing is said where the budget is used up. -/
theorem exhausted : Plain (throw .exhausted : Reader α) c := trivial

/-- Refused at the token at the cursor. -/
theorem refuse {fault : SyntaxFault} {pos : Position}
    (hpos : pos = c.current.pos) (hfault : fault.Describes c.current.kind)
    (htarget : fault ≠ .invalidTarget) (hblock : fault ≠ .openBlock) :
    Plain (refuse fault pos : Reader α) c := by
  refine ⟨[], [], .refuse fault pos, .here htarget ?_, hblock⟩
  rw [← c.current_eq]
  exact ⟨hpos, hfault⟩

/-- What is decided by the token at the cursor. -/
theorem congr (hr : ∀ c', c'.rest.head? = c.rest.head? → r c' = r' c')
    (h : Plain r' c) : Plain r c := by
  unfold Plain at h ⊢
  rw [hr c rfl]
  match r' c, h with
  | .ok _ _, ⟨taken, h⟩ => exact ⟨taken, h.congr hr⟩
  | .error (.refused _) _, ⟨taken, since, h, he⟩ =>
    exact ⟨taken, since, h.congr hr, he⟩
  | .error .exhausted _, _ => trivial

/-- Readers one behind the other: the second starts where the first has come
to, in the same expression. -/
theorem bind (h : Plain r c)
    (hf : ∀ a c₁, r c = .ok a c₁ → Plain (f a) c₁) :
    Plain (r >>= f) c := by
  unfold Plain at h ⊢
  rw [Sequencing.bind_apply]
  match hr : r c with
  | .ok a c₁ =>
    rw [hr] at h
    obtain ⟨taken, h⟩ := h
    have hnext := hf a c₁ hr
    unfold Plain at hnext
    show Holds _ (f a c₁)
    match f a c₁, hnext with
    | .ok _ _, ⟨_, h'⟩ => exact ⟨_, h.bind hr h'⟩
    | .error (.refused _) _, ⟨taken', since, h', he⟩ =>
      refine ⟨taken ++ taken', since, ?_, he⟩
      rw [List.append_assoc]
      exact h.bind hr h'
    | .error .exhausted _, _ => trivial
  | .error (.refused _) c₁ =>
    rw [hr] at h
    obtain ⟨taken, since, h, he⟩ := h
    exact ⟨taken, since, h.stopped hr, he⟩
  | .error .exhausted c₁ => trivial

/-- Readers one after another, each plain wherever it starts. -/
theorem next (h : Plain r c) (hf : ∀ a c₁, Plain (f a) c₁) :
    Plain (r >>= f) c :=
  h.bind fun a c₁ _ => hf a c₁

/-- What is made of a result takes nothing more. -/
theorem map {g : α → β} (h : Plain r c) : Plain (g <$> r) c := by
  rw [map_eq_pure_bind]
  exact h.next fun a _ => pure (g a)

/-- Of a choice, only the reader that is chosen has to be plain. -/
theorem ite {p : Prop} [Decidable p] (h : p → Plain r c)
    (h' : ¬p → Plain r' c) : Plain (if p then r else r') c := by
  split
  case isTrue hp => exact h hp
  case isFalse hp => exact h' hp

/-- To look at the token at hand is not to look further. -/
theorem current {f : Token → Reader β} (h : Plain (f c.current) c) :
    Plain (current >>= f) c := by
  refine congr (fun c' hc' => ?_) h
  rw [current_bind, c'.current_eq, tokenAt_congr hc', ← c.current_eq]

/-- The same where only its kind is looked at. -/
theorem kind {f : TokenKind → Reader β} (h : Plain (f c.current.kind) c) :
    Plain (kind >>= f) c := by
  refine congr (fun c' hc' => ?_) h
  rw [kind_bind, c'.current_eq, tokenAt_congr hc', ← c.current_eq]

/-- A token that may stand in an expression. -/
theorem take {f : Token → Reader β} (h : c.current.kind.outside = false)
    (hf : Plain (f c.current) c.advance) : Plain (take >>= f) c := by
  refine bind (r := Reader.take) ⟨_, .take h⟩ fun a c₁ ht => ?_
  cases ht
  exact hf

/-- To number a node takes nothing, so what is decided afterwards depends on
the same token. -/
theorem node {f : Node → Reader β} {pos : Position}
    (h : ∀ node c₁, Plain (f node) c₁) : Plain (node pos >>= f) c :=
  next (r := Reader.node pos) ⟨[], rfl, by simp, rfl, fun _ _ => rfl⟩ h

/-- A token that may come is taken, or nothing is. -/
theorem takeIf {f : Bool → Reader β} {wanted : TokenKind}
    (hwanted : wanted.outside = false)
    (htrue : c.current.kind = wanted → Plain (f true) c.advance)
    (hfalse : c.current.kind ≠ wanted → Plain (f false) c) :
    Plain (takeIf wanted >>= f) c := by
  by_cases hkind : c.current.kind = wanted
  · have htaken : Plain (Reader.take >>= fun _ => f true) c :=
      take (hkind ▸ hwanted) (htrue hkind)
    refine congr (fun c' hc' => ?_) htaken
    rw [c.current_eq, ← tokenAt_congr hc', ← c'.current_eq] at hkind
    rw [takeIf_bind, if_pos hkind, take_bind]
  · refine congr (fun c' hc' => ?_) (hfalse hkind)
    rw [c.current_eq, ← tokenAt_congr hc', ← c'.current_eq] at hkind
    rw [takeIf_bind, if_neg hkind]

/-- A token that has to come is taken, or refused where it should stand. -/
theorem expect {f : Token → Reader β} {wanted : TokenKind}
    {fault : TokenKind → SyntaxFault} (hwanted : wanted.outside = false)
    (hfault : SyntaxFault.Misses fault wanted)
    (hf : ∀ t c₁, Plain (f t) c₁) : Plain (expect wanted fault >>= f) c := by
  rw [Reader.expect, bind_assoc]
  refine current ?_
  split
  case isTrue hkind => exact take (hkind ▸ hwanted) (hf _ _)
  case isFalse hkind =>
    obtain ⟨hdescribes, htarget, hblock⟩ := hfault _ hkind
    exact bind (refuse rfl hdescribes htarget hblock)
      fun _ _ hrefused => absurd hrefused refuse_ne_ok

/-- An assignment whose left side is no name, from its sign on. -/
theorem misplaced {budget : Nat} (hkind : c.current.kind = .equal)
    (hvalue : Plain (expression budget) c.advance) :
    Plain (do
      let sign ← Reader.take
      let _ ← expression budget
      Reader.refuse .invalidTarget sign.pos : Reader α) c := by
  have hsign : c.current.kind.outside = false := by rw [hkind]; rfl
  unfold Plain at hvalue ⊢
  rw [take_bind, Sequencing.bind_apply]
  match hrun : expression budget c.advance with
  | .ok value c₂ =>
    rw [hrun] at hvalue
    obtain ⟨taken, h⟩ := hvalue
    have hstop : Inside (do
        let _ ← expression budget
        Reader.refuse .invalidTarget c.current.pos : Reader α)
        c.advance (taken ++ []) c₂ :=
      h.bind hrun (.refuse _ _)
    rw [List.append_nil] at hstop
    exact ⟨[], c.current :: taken, .behind_take hsign hstop,
      .assignment rfl ⟨rfl, hkind⟩ hrun h.rest rfl h.inside, nofun⟩
  | .error (.refused e) c₂ =>
    rw [hrun] at hvalue
    obtain ⟨taken, since, h, he⟩ := hvalue
    exact ⟨c.current :: taken, since,
      .behind_take hsign (h.stopped hrun), he⟩
  | .error .exhausted c₂ => trivial

end Plain

-- =========================================================== plain readers

/-- By itself, a look takes nothing. -/
theorem plain_current (c : Cursor) : Plain current c := by
  rw [← bind_pure current]
  exact .current (.pure _)

/-- By itself, a look at the kind takes nothing. -/
theorem plain_kind (c : Cursor) : Plain kind c := by
  rw [← bind_pure kind]
  exact .kind (.pure _)

/-- A token that may come in an expression is plain to take. -/
theorem plain_takeIf {wanted : TokenKind} (h : wanted.outside = false)
    (c : Cursor) : Plain (takeIf wanted) c := by
  rw [← bind_pure (takeIf wanted)]
  exact .takeIf h (fun _ => .pure _) fun _ => .pure _

/-- So is one that has to come. -/
theorem plain_expect {wanted : TokenKind} {fault : TokenKind → SyntaxFault}
    (hwanted : wanted.outside = false)
    (hfault : SyntaxFault.Misses fault wanted) (c : Cursor) :
    Plain (expect wanted fault) c := by
  rw [← bind_pure (expect wanted fault)]
  exact .expect hwanted hfault fun _ _ => .pure _

/-- A name that has to come is in the expression, or missing at the next
token. -/
theorem plain_name (role : NameRole) (c : Cursor) :
    Plain (expect .identifier (.noName role)) c :=
  plain_expect rfl (SyntaxFault.misses_name role) c

/-- So is an opening parenthesis. -/
theorem plain_opening (role : OpeningRole) (c : Cursor) :
    Plain (expect .leftParen (.noOpening role)) c :=
  plain_expect rfl (SyntaxFault.misses_opening role) c

/-- A closing parenthesis as well, though it often ends what stands inside. -/
theorem plain_closing (role : ClosingRole) (c : Cursor) :
    Plain (expect .rightParen (.noClosing role)) c :=
  plain_expect rfl (SyntaxFault.misses_closing role) c

/-- A list of parameters has only names and commas in it, which may stand in
an expression too. -/
theorem plain_parameters (budget : Nat) (c : Cursor) :
    Plain (parameters budget) c := by
  induction budget generalizing c with
  | zero => exact .exhausted
  | succ budget ih =>
    exact .next (plain_name .parameter c) fun first c₁ => .takeIf rfl
      (fun _ => .next (ih _) fun _ _ => .pure _) fun _ => .pure _

-- ============================================================ expressions

/-- With this budget, every reader of expressions stays within one. -/
structure ExprsPlain (budget : Nat) : Prop where
  expression : ∀ c, Plain (expression budget) c
  joined : ∀ level c, Plain (joined budget level) c
  joinedMore : ∀ level left c, Plain (joinedMore budget level left) c
  operand : ∀ level c, Plain (operand budget level) c
  unary : ∀ c, Plain (unary budget) c
  called : ∀ c, Plain (called budget) c
  calledMore : ∀ callee c, Plain (calledMore budget callee) c
  arguments : ∀ c, Plain (arguments budget) c
  primary : ∀ c, Plain (primary budget) c

section Expressions

variable {budget : Nat} (ih : ExprsPlain budget)

include ih

/-- An assignment is refused at its sign when its value has been read, and not
where it stands then. This is the one refusal that looks back. -/
theorem plain_expression : Plain (expression (budget + 1)) c := by
  refine .current (.next (ih.joined .or c) fun left c₁ =>
    .kind (.ite (fun hkind => ?_) fun _ => .pure left))
  cases left with
  | var node name =>
    exact .take (by rw [hkind]; rfl) (.next (ih.expression _)
      fun value c₂ => .node fun node c₃ => .pure _)
  | _ => exact .misplaced hkind (ih.expression _)

/-- Operands of a level, with the operators between them, stay in the
expression. -/
theorem plain_joined (level : Level) : Plain (joined (budget + 1) level) c :=
  .next (ih.operand level c) fun left c₁ => ih.joinedMore level left c₁

/-- Whether one more operand comes is decided by the next token. -/
theorem plain_joinedMore (level : Level) (left : Expr) :
    Plain (joinedMore (budget + 1) level left) c := by
  refine .kind ?_
  cases hop : level.connective? c.current.kind with
  | none => exact .pure left
  | some op =>
    exact .take (Level.inside hop) (.next (ih.operand level _)
      fun right c₂ => .node fun node c₃ => ih.joinedMore level _ c₃)

/-- An operand is one of a tighter level, or one with signs in front. -/
theorem plain_operand (level : Level) :
    Plain (operand (budget + 1) level) c := by
  unfold operand
  cases level.tighter? with
  | some tighter => exact ih.joined tighter c
  | none => exact ih.unary c

/-- Whether there is a sign is decided by the next token. -/
theorem plain_unary : Plain (unary (budget + 1)) c := by
  refine .kind ?_
  cases hop : UnaryOp.ofKind? c.current.kind with
  | none => exact ih.called c
  | some op =>
    exact .take (UnaryOp.inside hop) (.next (ih.unary _)
      fun inner c₂ => .node fun node c₃ => .pure _)

/-- A callee and the lists of arguments behind it stay in the expression. -/
theorem plain_called : Plain (called (budget + 1)) c :=
  .next (ih.primary c) fun callee c₁ => ih.calledMore callee c₁

/-- Whether one more list comes is decided by the next token, its
parenthesis. -/
theorem plain_calledMore (callee : Expr) :
    Plain (calledMore (budget + 1) callee) c := by
  have hlist (opening : Token) (args : List Expr) (c₁ : Cursor) :
      Plain (do
        let _ ← expect .rightParen (.noClosing .arguments)
        let list ← node opening.pos
        calledMore budget
          (.call (← node opening.pos) list.id callee args)) c₁ :=
    .expect rfl (SyntaxFault.misses_closing _)
      fun _ c₂ => .node fun list c₃ => .node fun node c₄ =>
        ih.calledMore _ c₄
  refine .kind (.ite (fun hkind => ?_) fun _ => .pure callee)
  refine .take (by rw [hkind]; rfl) (.kind (.ite (fun _ => ?_) fun _ => ?_))
  · exact hlist _ [] _
  · exact .next (ih.arguments _) fun args => hlist _ args

/-- Arguments are expressions with commas between them. -/
theorem plain_arguments : Plain (arguments (budget + 1)) c :=
  .next (ih.expression c) fun first _ => .takeIf rfl
    (fun _ => .next (ih.arguments _) fun _ _ => .pure _)
    fun _ => .pure [first]

/-- A primary expression is told by its first token, and refused there if it
is none. In parentheses there is an expression, by the induction. -/
theorem plain_primary : Plain (primary (budget + 1)) c := by
  refine .current ?_
  cases hvalue : Literal.ofToken? c.current with
  | some value =>
    exact .take (Literal.inside hvalue) (.node fun node c₁ => .pure _)
  | none =>
    simp only
    split
    case h_1 hkind =>
      exact .take (by rw [hkind]; rfl) (.node fun node c₁ => .pure _)
    case h_2 hkind =>
      exact .take (by rw [hkind]; rfl) (.next (ih.expression _)
        fun inner c₁ => .takeIf rfl (fun _ => .node fun node c₂ => .pure _)
          fun hopen => .current (.refuse rfl hopen nofun nofun))
    case h_3 hname hopening =>
      exact .refuse rfl ⟨rfl, Literal.kind_of_ofToken?_eq_none hvalue hname
        hopening⟩ nofun nofun

end Expressions

/-- All readers of expressions are plain, by induction on the budget. -/
theorem exprsPlain (budget : Nat) : ExprsPlain budget := by
  induction budget with
  | zero => constructor <;> intros <;> exact .exhausted
  | succ budget ih =>
    exact {
      expression := fun _ => plain_expression ih
      joined := fun level _ => plain_joined ih level
      joinedMore := fun level left _ => plain_joinedMore ih level left
      operand := fun level _ => plain_operand ih level
      unary := fun _ => plain_unary ih
      called := fun _ => plain_called ih
      calledMore := fun callee _ => plain_calledMore ih callee
      arguments := fun _ => plain_arguments ih
      primary := fun _ => plain_primary ih }

end Reader

end Lox
