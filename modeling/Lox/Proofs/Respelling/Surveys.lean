/-
Respelled programs are bound alike. If a program is accepted, so is any
other that differs from it in the spelling of local names alone, and the
same is recorded for both: uses at the same nodes in the same order, each
as far out as the other (`Stmt.AllRespelled.bindProgram`).

The point is that a use finds its declaration as far out as the use that
goes with it, whatever else the two spellings are in scopes on the way
(`SameMeaning.depth?_eq`). All else follows the survey step by step, with
`Echoed` for two surveys of which the second ends as the first does.
-/
import Lox.Proofs.Respelling.Trees
import Lox.Proofs.Scoping.Noted

namespace Lox

/-- What is recorded of a use: its node, what is done there, and how far
out the name is bound. -/
def LocalUse.entry (u : LocalUse) : Node × UseKind × Nat :=
  (u.node, u.kind, u.depth)

-- ================================================================ surveys

namespace Survey

variable {ε α α' β β' : Type}

/-- If the first survey ends without an error, so does the second, with
the same recorded, and their results go together. -/
def Echoed (post : α → α' → Prop) (s : Survey LocalUse ε α)
    (s' : Survey LocalUse ε α') : Prop :=
  ∀ notes a, s = ⟨notes, .ok a⟩ → ∃ notes' a', s' = ⟨notes', .ok a'⟩ ∧
    notes'.map LocalUse.entry = notes.map LocalUse.entry ∧ post a a'

namespace Echoed

variable {post : α → α' → Prop} {s : Survey LocalUse ε α}
  {s' : Survey LocalUse ε α'}

theorem done {a : α} {a' : α'} (h : post a a') :
    Echoed post (done a : Survey LocalUse ε α) (.done a') := by
  rintro _ _ ⟨⟩
  exact ⟨[], a', rfl, rfl, h⟩

/-- A survey that stops asks for nothing. -/
theorem stop (e : ε) : Echoed post (stop e) s' := by
  rintro _ _ ⟨⟩

/-- Notes with equal entries echo each other. -/
theorem note {u u' : LocalUse} (h : u'.entry = u.entry) :
    Echoed (fun _ _ => True) (note u : Survey LocalUse ε Unit)
      (.note u') := by
  rintro _ _ ⟨⟩
  exact ⟨[u'], (), rfl, by rw [List.map_singleton, h]; rfl, trivial⟩

/-- Surveys one behind the other echo each other part by part. -/
theorem bind {post' : β → β' → Prop} {f : α → Survey LocalUse ε β}
    {f' : α' → Survey LocalUse ε β'} (h : Echoed post s s')
    (hf : ∀ a a', post a a' → Echoed post' (f a) (f' a')) :
    Echoed post' (s >>= f) (s' >>= f') := by
  intro notes b hb
  obtain ⟨a, first, others, hs, hfa, rfl⟩ := bind_eq_ok.1 hb
  obtain ⟨first', a', hs', hfirst, ha⟩ := h _ _ hs
  obtain ⟨others', b', hfa', hothers, hb'⟩ := hf a a' ha _ _ hfa
  refine ⟨first' ++ others', b', ?_, ?_, hb'⟩
  · exact bind_eq_ok.2 ⟨a', first', others', hs', hfa', rfl⟩
  · rw [List.map_append, List.map_append, hfirst, hothers]

/-- Surveys that end with something found on the way. -/
theorem ending {b : β} {b' : β'} {post' : β → β' → Prop}
    (h : Echoed post s s') (hb : post' b b') :
    Echoed post' (s >>= fun _ => pure b) (s' >>= fun _ => pure b') :=
  h.bind fun _ _ _ => .done hb

end Echoed

end Survey

open Survey (Echoed)

-- ================================================================= depths

namespace SameMeaning

/-- Two names are both declared in a scope, or neither is and they have
the same meaning outside. -/
theorem split {scope outer : List (String × String)} {name name' : String}
    (h : SameMeaning (scope ++ outer) name name') :
    (name ∈ scope.map Prod.fst ↔ name' ∈ scope.map Prod.snd) ∧
      (name ∉ scope.map Prod.fst → SameMeaning outer name name') := by
  induction scope with
  | nil => exact ⟨⟨nofun, nofun⟩, fun _ => h⟩
  | cons p scope ih =>
    obtain ⟨a, a'⟩ := p
    rw [List.map_cons, List.map_cons, List.mem_cons, List.mem_cons]
    rcases h with ⟨rfl, rfl⟩ | ⟨ha, ha', hrest⟩
    · exact ⟨iff_of_true (.inl rfl) (.inl rfl), fun hout =>
        absurd (.inl rfl) hout⟩
    · obtain ⟨hiff, hout⟩ := ih hrest
      simp only [Ne.symm ha, Ne.symm ha', false_or]
      exact ⟨hiff, hout⟩

/-- Names with the same meaning are declared equally far out. -/
theorem depth?_eq {Γ : NamePairs} {name name' : String}
    (h : SameMeaning Γ.flatten name name') :
    Γ.right.depth? name' = Γ.left.depth? name := by
  induction Γ with
  | nil => rfl
  | cons scope outer ih =>
    obtain ⟨hiff, hout⟩ := h.split
    show Scopes.depth? (_ :: NamePairs.right outer) name'
      = Scopes.depth? (_ :: NamePairs.left outer) name
    rw [Scopes.depth?_cons, Scopes.depth?_cons]
    by_cases hmem : name ∈ scope.map Prod.fst
    · rw [if_pos hmem, if_pos (hiff.1 hmem)]
    · rw [if_neg hmem, if_neg (mt hiff.2 hmem), ih (hout hmem)]

end SameMeaning

-- =========================================================== declarations

namespace NamePairs

variable {Γ : NamePairs}

/-- These are the scopes of the two programs. -/
def Covers (Γ : NamePairs) (scopes scopes' : Scopes) : Prop :=
  scopes = Γ.left ∧ scopes' = Γ.right

/-- What is pending in the first program goes with what is pending in the
second: nothing, or the names declared last. -/
inductive Pending : NamePairs → Option String → Option String → Prop
  | settled {Γ : NamePairs} : Pending Γ none none
  | initializing {scope : List (String × String)} {outer : NamePairs}
      {a a' : String} :
      Pending (((a, a') :: scope) :: outer) (some a) (some a')

theorem echoed_declare {name name' : Name}
    (h : Γ.Declares name.text name'.text) :
    Echoed (Γ.add name.text name'.text).Covers (Γ.left.declare name)
      (Γ.right.declare name') := by
  cases Γ with
  | nil => exact .done ⟨rfl, rfl⟩
  | cons scope outer =>
    show Echoed _
      (if name.text ∈ scope.map Prod.fst then .stop _ else .done _)
      (if name'.text ∈ scope.map Prod.snd then .stop _ else .done _)
    split
    · exact .stop _
    · next hfresh =>
      rw [if_neg (mt h.2 hfresh)]
      exact .done ⟨rfl, rfl⟩

theorem echoed_declareAll {inner : NamePairs} {params params' : List Name}
    (h : Params Γ (params.map Name.text) (params'.map Name.text) inner) :
    Echoed inner.Covers (Γ.left.declareAll params)
      (Γ.right.declareAll params') := by
  induction params generalizing Γ params' with
  | nil =>
    cases params' with
    | cons => cases h
    | nil =>
      cases h
      exact .done ⟨rfl, rfl⟩
  | cons p params ih =>
    cases params' with
    | nil => cases h
    | cons p' params' =>
      cases h with
      | cons hname hnames =>
        refine (echoed_declare hname).bind fun scopes scopes' hscopes => ?_
        obtain ⟨rfl, rfl⟩ := hscopes
        exact ih hnames

/-- A name and its respelling are found at the same depth, so the notes have
equal entries. -/
theorem echoed_use {r : Respelling} {name name' : String}
    (h : Γ.Use r name name') (kind : UseKind) (node : Node) :
    Echoed (fun _ _ => True) (Γ.left.use kind node name)
      (Γ.right.use kind node name') := by
  unfold Scopes.use
  rw [h.meaning.depth?_eq]
  cases Γ.left.depth? name with
  | none => exact .done trivial
  | some depth => exact .note rfl

/-- If a use does not read what is pending, then the use that goes with
it does not. -/
theorem Pending.ne {r : Respelling} {name name' : String}
    {pending pending' : Option String} (h : Γ.Pending pending pending')
    (huse : Γ.Use r name name') (hne : pending ≠ some name) :
    pending' ≠ some name' := by
  cases h with
  | settled => nofun
  | initializing =>
    rintro ⟨⟩
    rcases huse.meaning with ⟨rfl, -⟩ | ⟨-, hne', -⟩
    · exact hne rfl
    · exact hne' rfl

end NamePairs

-- ================================================================== trees

variable {r : Respelling}

mutual

/-- One case per expression: the names read in the two trees are found
alike. -/
theorem Expr.Respelled.survey {Γ : NamePairs}
    {pending pending' : Option String} (hp : Γ.Pending pending pending') :
    {e e' : Expr} → e.Respelled r Γ e' → Echoed (fun _ _ => True)
      (e.survey Γ.left pending) (e'.survey Γ.right pending')
  | _, _, .literal => .done trivial
  | _, _, .var h => by
      rw [Expr.survey, Expr.survey]
      split
      · exact .stop _
      · next hne =>
        rw [if_neg (hp.ne h hne)]
        exact NamePairs.echoed_use h .read _
  | _, _, .assign he h =>
      (he.survey hp).bind fun _ _ _ => NamePairs.echoed_use h .write _
  | _, _, .group he | _, _, .unary he => he.survey hp
  | _, _, .binary ha hb | _, _, .logical ha hb =>
      (ha.survey hp).bind fun _ _ _ => hb.survey hp
  | _, _, .call hcallee hargs =>
      (hcallee.survey hp).bind fun _ _ _ => hargs.surveyAll hp

theorem Expr.AllRespelled.surveyAll {Γ : NamePairs}
    {pending pending' : Option String} (hp : Γ.Pending pending pending') :
    {es es' : List Expr} → Expr.AllRespelled r Γ es es' →
      Echoed (fun _ _ => True) (Expr.surveyAll Γ.left pending es)
        (Expr.surveyAll Γ.right pending' es')
  | _, _, .nil => .done trivial
  | _, _, .cons he hes =>
      (he.survey hp).bind fun _ _ _ => hes.surveyAll hp

end

theorem Expr.OptionRespelled.surveyInit {Γ : NamePairs}
    {name name' : String} {e e' : Option Expr}
    (h : Expr.OptionRespelled r (Γ.add name name') e e') :
    Echoed (fun _ _ => True)
      (Expr.surveyInit (Γ.add name name').left name e)
      (Expr.surveyInit (Γ.add name name').right name' e') := by
  cases h with
  | none => exact .done trivial
  | some he =>
    cases Γ with
    | nil => exact he.survey .settled
    | cons scope outer => exact he.survey .initializing

mutual

/-- The surveys of respelled statements. -/
theorem Stmt.Respelled.survey {inFunction : Bool} :
    {Γ Γ' : NamePairs} → {s s' : Stmt} → s.Respelled r Γ s' Γ' →
      Echoed Γ'.Covers (s.survey inFunction Γ.left)
        (s'.survey inFunction Γ.right)
  | _, _, _, _, .expr he | _, _, _, _, .print he =>
      (he.survey .settled).ending ⟨rfl, rfl⟩
  | _, _, _, _, .varDecl hname hinit => by
      refine (NamePairs.echoed_declare hname).bind fun _ _ hscopes => ?_
      obtain ⟨rfl, rfl⟩ := hscopes
      exact (Expr.OptionRespelled.surveyInit hinit).ending ⟨rfl, rfl⟩
  | _, _, _, _, .funDecl hname hparams hbody => by
      refine (NamePairs.echoed_declare hname).bind fun _ _ hscopes => ?_
      obtain ⟨rfl, rfl⟩ := hscopes
      refine (NamePairs.echoed_declareAll hparams).bind fun _ _ hinner => ?_
      obtain ⟨rfl, rfl⟩ := hinner
      exact hbody.surveyAll.ending ⟨rfl, rfl⟩
  | _, _, _, _, .block hbody => hbody.surveyAll.ending ⟨rfl, rfl⟩
  | _, _, _, _, .cond htest hyes =>
      (htest.survey .settled).bind fun _ _ _ => hyes.survey.ending ⟨rfl, rfl⟩
  | _, _, _, _, .condElse htest hyes hno =>
      (htest.survey .settled).bind fun _ _ _ => hyes.survey.bind fun _ _ _ =>
        hno.survey.ending ⟨rfl, rfl⟩
  | _, _, _, _, .loop htest hbody =>
      (htest.survey .settled).bind fun _ _ _ => hbody.survey.ending ⟨rfl, rfl⟩
  | _, _, _, _, .ret hvalue => by
      cases inFunction with
      | false => exact .stop _
      | true =>
        cases hvalue with
        | none => exact .done ⟨rfl, rfl⟩
        | some he => exact (he.survey .settled).ending ⟨rfl, rfl⟩

/-- Statement by statement, each in the names the one before leaves in
force. -/
theorem Stmt.AllRespelled.surveyAll {inFunction : Bool} :
    {Γ : NamePairs} → {ss ss' : List Stmt} →
      Stmt.AllRespelled r Γ ss ss' → Echoed (fun _ _ => True)
        (Stmt.surveyAll inFunction Γ.left ss)
        (Stmt.surveyAll inFunction Γ.right ss')
  | _, _, _, .nil => .done trivial
  | _, _, _, .cons hs hss => by
      refine hs.survey.bind fun _ _ hscopes => ?_
      obtain ⟨rfl, rfl⟩ := hscopes
      exact hss.surveyAll

end

-- =============================================================== programs

/-- At the top level, statements declare no local names. -/
theorem Stmt.Respelled.after_eq_nil {s s' : Stmt} {Γ' : NamePairs}
    (h : s.Respelled r [] s' Γ') : Γ' = [] := by
  cases h <;> rfl

/-- A top-level statement that is accepted is accepted respelled, with the
same entries in the same order. -/
theorem Stmt.Respelled.surveyTop {s s' : Stmt} {Γ' : NamePairs}
    (h : s.Respelled r [] s' Γ') (herror : s.surveyTop.error? = none) :
    s'.surveyTop.error? = none ∧ s'.surveyTop.notes.map LocalUse.entry
      = s.surveyTop.notes.map LocalUse.entry := by
  have hechoed : Echoed Γ'.Covers s.surveyTop s'.surveyTop :=
    h.survey
  cases hsurvey : s.surveyTop with
  | mk notes result =>
    cases result with
    | error e =>
      rw [hsurvey] at herror
      cases herror
    | ok scopes =>
      obtain ⟨notes', scopes', hsurvey', hnotes, -⟩ := hechoed _ _ hsurvey
      rw [hsurvey']
      exact ⟨rfl, hnotes⟩

/-- In another spelling a program is accepted as well, and the same is
recorded for it. -/
theorem Stmt.AllRespelled.bindProgram {program program' : List Stmt}
    {uses : List LocalUse} (h : Stmt.AllRespelled r [] program program')
    (hbound : Lox.bindProgram program = .ok uses) :
    ∃ uses', Lox.bindProgram program' = .ok uses' ∧
      uses'.map LocalUse.entry = uses.map LocalUse.entry := by
  obtain ⟨rfl, herrors⟩ := bindProgram_eq_ok_iff.1 hbound
  have hall : (∀ s ∈ program', s.surveyTop.error? = none) ∧
      (localUses program').map LocalUse.entry
        = (localUses program).map LocalUse.entry := by
    clear hbound
    induction program generalizing program' with
    | nil =>
      cases h
      exact ⟨nofun, rfl⟩
    | cons s ss ih =>
      cases h with
      | cons hs hss =>
        obtain rfl := hs.after_eq_nil
        rw [List.forall_mem_cons] at herrors
        obtain ⟨herror, hnotes⟩ := hs.surveyTop herrors.1
        obtain ⟨hothers, huses⟩ := ih hss herrors.2
        refine ⟨List.forall_mem_cons.2 ⟨herror, hothers⟩, ?_⟩
        unfold localUses at huses ⊢
        rw [List.flatMap_cons, List.flatMap_cons, List.map_append,
          List.map_append, hnotes, huses]
  exact ⟨_, bindProgram_eq_ok_iff.2 ⟨rfl, hall.1⟩, hall.2⟩

/-- What is recorded in a table does not depend on the names. -/
theorem Depths.record_congr {uses uses' : List LocalUse}
    (h : uses'.map LocalUse.entry = uses.map LocalUse.entry)
    (depths : Depths) : depths.record uses' = depths.record uses := by
  have hrecord : ∀ us : List LocalUse, depths.record us
      = (us.map LocalUse.entry).foldl
        (fun table e => table.insert e.1.id e.2.2) depths := by
    intro us
    rw [List.foldl_map]
    rfl
  rw [hrecord, hrecord, h]

end Lox
