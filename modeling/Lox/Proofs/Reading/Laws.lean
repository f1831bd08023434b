/-
How readers run. A reader that has ended without a fault did so step by
step (`bind_eq_ok`), and each of the single steps is a function of the
token at the cursor.
-/
import Lox.Proofs.Reading.Grammar
import Lox.Proofs.Sequencing

namespace Lox

-- ============================================================== cursors

namespace Cursor

/-- Moving on counts no node. -/
@[simp] theorem nextId_advance (c : Cursor) :
    c.advance.nextId = c.nextId := by
  unfold advance
  split
  · rfl
  · split <;> rfl

@[simp] theorem errors_advance (c : Cursor) :
    c.advance.errors = c.errors := by
  unfold advance
  split
  · rfl
  · split <;> rfl

/-- What is left does not depend on the number of the next node. -/
@[simp] theorem rest_advance_nextId (c : Cursor) (n : Nat) :
    ({ c with nextId := n } : Cursor).advance.rest = c.advance.rest := by
  unfold advance
  split
  · simp_all
  · simp_all only
    split <;> simp_all

/-- A token of a kind that is not the end is taken for good. -/
theorem rest_of_kind {c : Cursor} {kind : TokenKind}
    (h : c.current.kind = kind) (hkind : kind ≠ .endOfText) :
    c.rest = c.current :: c.advance.rest :=
  rest_eq_current_cons_advance (h ▸ hkind)

end Cursor

namespace Reader

export Sequencing (bind_of_ok bind_eq_ok map_eq_ok pure_eq_ok)

variable {α β : Type}

-- ============================================================ single steps

variable {f : Token → Reader β} {c : Cursor}

@[simp] theorem current_bind : (current >>= f) c = f c.current c := rfl

/-- To take a token is to read the current one and go on behind it. -/
@[simp] theorem take_bind : (take >>= f) c = f c.current c.advance := rfl

@[simp] theorem kind_bind {f : TokenKind → Reader β} :
    (kind >>= f) c = f c.current.kind c := rfl

/-- A new node has the number next to be used. -/
@[simp] theorem node_bind {f : Node → Reader β} {pos : Position} :
    (node pos >>= f) c
      = f ⟨c.nextId, pos⟩ { c with nextId := c.nextId + 1 } := rfl

/-- A reader that stops has no result. -/
@[simp] theorem throw_ne_ok {stop : Stop} {b : β} {c' : Cursor} :
    (throw stop : Reader β) c ≠ .ok b c' := nofun

@[simp] theorem refuse_ne_ok {fault : SyntaxFault} {pos : Position} {b : β}
    {c' : Cursor} : (refuse fault pos : Reader β) c ≠ .ok b c' := nofun

/-- A wanted token is taken, any other is left for what comes next. -/
theorem takeIf_bind {f : Bool → Reader β} {wanted : TokenKind} :
    (takeIf wanted >>= f) c
      = if c.current.kind = wanted then f true c.advance
        else f false c := by
  rw [takeIf, bind_assoc, kind_bind]
  split <;> rfl

/-- A token that is insisted on is taken, or refused where it stands. -/
theorem expect_bind {wanted : TokenKind} {fault : TokenKind → SyntaxFault} :
    (expect wanted fault >>= f) c
      = if c.current.kind = wanted then f c.current c.advance
        else .error (.refused ⟨fault c.current.kind, c.current.pos⟩) c := by
  rw [expect, bind_assoc, current_bind]
  split <;> rfl

/-- Behind a step that asked for a kind, the token had it. -/
theorem expect_bind_eq_ok {wanted : TokenKind}
    {fault : TokenKind → SyntaxFault} {b : β} {c' : Cursor} :
    (expect wanted fault >>= f) c = .ok b c'
      ↔ c.current.kind = wanted ∧ f c.current c.advance = .ok b c' := by
  rw [expect_bind]
  split <;> simp_all

/-- A choice between readers is made before either runs. -/
theorem run_ite {p : Prop} [Decidable p] {r r' : Reader α} :
    (if p then r else r') c = if p then r c else r' c := by
  split <;> rfl

-- ============================================================== functions

/-- A function behind its parameters. -/
def functionRest (budget : Nat) (word name : Token) (params : List Name) :
    Reader Stmt := do
  let _ ← expect .rightParen (.noClosing .parameters)
  let opening ← current
  if opening.kind = .leftBrace then
    let (bodyNode, body) ← braced budget
    let list ← node name.pos
    return .funDecl (← node word.pos) ⟨name.lexeme, name.pos⟩ list.id
      params bodyNode body
  else
    refuse (.noBody opening.kind) opening.pos

/-- With parameters or without, the rest of a function is read alike. -/
theorem funDecl_succ (budget : Nat) :
    funDecl (budget + 1) = (do
      let word ← take
      let name ← expect .identifier (.noName .function)
      let _ ← expect .leftParen (.noOpening .functionName)
      if (← kind) = .rightParen then
        functionRest budget word name []
      else
        let params ← parameters budget
        functionRest budget word name params) := by
  rw [funDecl]
  rfl

end Reader

end Lox
