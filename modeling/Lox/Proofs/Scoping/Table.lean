/-
The table of a session. It grows with every unit that is accepted. What
it has at the nodes of earlier units stays as it is, since the nodes of a
new unit have new identities, and at those it has what the survey of the
unit has noted. So every program is bound by the table of its own unit
(`allBound_record`) and by that of every later one
(`Stmt.allBound_congr`).
-/
import Lox.Proofs.Scoping.Bound

namespace Lox

-- ============================================================ same tables

section Congr

variable {table table' : Table}

mutual

/-- What is bound depends on the table at the nodes of the tree alone. -/
theorem Expr.bound_congr {scopes : Scopes} {pending : Option String} :
    (e : Expr) → (∀ id ∈ e.ids, table id = table' id) →
      e.Bound table scopes pending → e.Bound table' scopes pending
  | .literal _ _, _, _ => trivial
  | .var node _, hids, h => ⟨h.1, hids node.id (.head _) ▸ h.2⟩
  | .assign node _ value, hids, h =>
      ⟨bound_congr value (fun id hid => hids id (.tail _ hid)) h.1,
        hids node.id (.head _) ▸ h.2⟩
  | .group _ inner, hids, h | .unary _ _ inner, hids, h =>
      bound_congr inner (fun id hid => hids id (.tail _ hid)) h
  | .binary _ _ left right, hids, h | .logical _ _ left right, hids, h =>
      ⟨bound_congr left
          (fun id hid => hids id (.tail _ (List.mem_append_left _ hid))) h.1,
        bound_congr right
          (fun id hid => hids id (.tail _ (List.mem_append_right _ hid)))
          h.2⟩
  | .call _ _ callee args, hids, h =>
      ⟨bound_congr callee (fun id hid =>
          hids id (.tail _ (.tail _ (List.mem_append_left _ hid)))) h.1,
        allBound_congr args (fun id hid =>
          hids id (.tail _ (.tail _ (List.mem_append_right _ hid)))) h.2⟩

/-- The same for some expressions. -/
theorem Expr.allBound_congr {scopes : Scopes} {pending : Option String} :
    (es : List Expr) → (∀ id ∈ Expr.idsAll es, table id = table' id) →
      Expr.AllBound table scopes pending es →
        Expr.AllBound table' scopes pending es
  | [], _, _ => trivial
  | e :: es, hids, h =>
      ⟨bound_congr e (fun id hid => hids id (List.mem_append_left _ hid)) h.1,
        allBound_congr es (fun id hid => hids id (List.mem_append_right _ hid))
          h.2⟩

end

mutual

/-- What is bound depends on the table at the nodes of the tree alone. -/
theorem Stmt.bound_congr : {scopes : Scopes} → (s : Stmt) →
    (∀ id ∈ s.ids, table id = table' id) →
      s.Bound table scopes → s.Bound table' scopes
  | _, .expr _ value, hids, h | _, .print _ value, hids, h =>
      Expr.bound_congr value (fun id hid => hids id (.tail _ hid)) h
  | _, .varDecl _ name none, hids, h => ⟨h.1, nofun⟩
  | _, .varDecl _ name (some e), hids, h =>
      ⟨h.1, fun e' he' => by
        obtain rfl : e = e' := by simpa using he'
        exact Expr.bound_congr e (fun id hid => hids id (.tail _ hid))
          (h.2 e rfl)⟩
  | _, .funDecl _ name _ params _ body, hids, h =>
      ⟨h.1, h.2.1, allBound_congr body (fun id hid =>
        hids id (.tail _ (.tail _ (.tail _ hid)))) h.2.2⟩
  | _, .block _ body, hids, h =>
      allBound_congr body (fun id hid => hids id (.tail _ hid)) h
  | _, .cond _ test yes none, hids, h =>
      ⟨Expr.bound_congr test
          (fun id hid => hids id (.tail _ (List.mem_append_left _ hid))) h.1,
        bound_congr yes
          (fun id hid => hids id (.tail _ (List.mem_append_right _ hid)))
          h.2⟩
  | _, .cond _ test yes (some no), hids, h =>
      ⟨Expr.bound_congr test (fun id hid => hids id (.tail _
          (List.mem_append_left _ (List.mem_append_left _ hid)))) h.1,
        bound_congr yes (fun id hid => hids id (.tail _
          (List.mem_append_left _ (List.mem_append_right _ hid)))) h.2.1,
        bound_congr no
          (fun id hid => hids id (.tail _ (List.mem_append_right _ hid)))
          h.2.2⟩
  | _, .loop _ test body, hids, h =>
      ⟨Expr.bound_congr test
          (fun id hid => hids id (.tail _ (List.mem_append_left _ hid))) h.1,
        bound_congr body
          (fun id hid => hids id (.tail _ (List.mem_append_right _ hid)))
          h.2⟩
  | _, .ret _ none, _, _ => nofun
  | _, .ret _ (some e), hids, h => fun e' he' => by
      obtain rfl : e = e' := by simpa using he'
      exact Expr.bound_congr e (fun id hid => hids id (.tail _ hid))
        (h e rfl)

/-- The same for some statements. -/
theorem Stmt.allBound_congr : {scopes : Scopes} → (ss : List Stmt) →
    (∀ id ∈ Stmt.idsAll ss, table id = table' id) →
      Stmt.AllBound table scopes ss → Stmt.AllBound table' scopes ss
  | _, [], _, _ => trivial
  | _, s :: ss, hids, h =>
      ⟨bound_congr s (fun id hid => hids id (List.mem_append_left _ hid)) h.1,
        allBound_congr ss (fun id hid => hids id (List.mem_append_right _ hid))
          h.2⟩

end

/-- Another table will do for statements from before the limit, if it is
the same there. -/
theorem Stmt.AllPlaced.retable {limit limit' : Nat} {scopes : Scopes}
    {ss : List Stmt} (h : Stmt.AllPlaced table limit scopes ss)
    (hle : limit ≤ limit') (hsame : ∀ id, id < limit → table id = table' id) :
    Stmt.AllPlaced table' limit' scopes ss :=
  ⟨Stmt.allBound_congr ss (fun id hid => hsame id (h.ids id hid)) h.bound,
    h.formed, fun id hid => Nat.lt_of_lt_of_le (h.ids id hid) hle⟩

end Congr

-- ============================================================== recording

namespace Depths

/-- What is recorded last at a node is found there. -/
theorem getElem?_record (depths : Depths) (uses : List LocalUse) (id : Nat) :
    (depths.record uses)[id]?
      = uses.foldl (fun d u => if u.node.id = id then some u.depth else d)
        depths[id]? := by
  unfold record
  induction uses generalizing depths with
  | nil => rfl
  | cons u uses ih =>
    rw [List.foldl_cons, List.foldl_cons, ih, Std.TreeMap.getElem?_insert]
    simp only [Nat.compare_eq_eq]

/-- Where the table has nothing yet, it has what is recorded. -/
theorem getElem?_record_of_none {depths : Depths} {id : Nat}
    (h : depths[id]? = none) (uses : List LocalUse) :
    (depths.record uses)[id]? = depthNoted uses id := by
  rw [getElem?_record, h]
  rfl

/-- What is recorded comes on top of what was there. -/
theorem getElem?_record_eq_none {depths : Depths} {uses : List LocalUse}
    {id : Nat} :
    (depths.record uses)[id]? = none
      ↔ depths[id]? = none ∧ ∀ u ∈ uses, u.node.id ≠ id := by
  rw [getElem?_record]
  generalize depths[id]? = d
  induction uses generalizing d with
  | nil => simp
  | cons u uses ih =>
    rw [List.foldl_cons, ih, List.forall_mem_cons]
    by_cases hid : u.node.id = id <;> simp [hid]

/-- Where nothing is recorded, the table stays as it is. -/
theorem getElem?_record_of_absent {uses : List LocalUse} {ids : List Nat}
    (h : Within uses ids) {id : Nat} (hid : id ∉ ids) (depths : Depths) :
    (depths.record uses)[id]? = depths[id]? := by
  rw [getElem?_record]
  refine foldl_noted_of_absent (fun u hu heq => hid ?_) _
  rw [← heq]
  exact h u hu

theorem record_append (depths : Depths) (as bs : List LocalUse) :
    depths.record (as ++ bs) = (depths.record as).record bs :=
  List.foldl_append

end Depths

-- =============================================================== programs

/-- A program whose names are bound has no errors in any statement, and
the uses are those that the statements note. -/
theorem bindProgram_eq_ok_iff {program : List Stmt} {uses : List LocalUse} :
    bindProgram program = .ok uses ↔
      uses = localUses program ∧
        ∀ s ∈ program, s.surveyTop.error? = none := by
  unfold bindProgram
  cases herrors : Diagnostics.ofList? (bindingErrors program) with
  | none =>
    rw [Diagnostics.ofList?_eq_none, bindingErrors,
      List.filterMap_eq_nil_iff] at herrors
    constructor
    · rintro ⟨⟩
      exact ⟨rfl, herrors⟩
    · rintro ⟨rfl, -⟩
      rfl
  | some errors =>
    refine ⟨nofun, fun ⟨_, hall⟩ => ?_⟩
    have hnil : bindingErrors program = [] :=
      List.filterMap_eq_nil_iff.2 hall
    rw [hnil] at herrors
    cases herrors

/-- A table that has what a program without errors notes is right for
the program. -/
theorem surveyed_program {table : Table} {program : List Stmt}
    (hnodup : (Stmt.idsAll program).Nodup)
    (h : ∀ s ∈ program, s.surveyTop.error? = none) :
    Surveyed table (localUses program) (Stmt.idsAll program)
      (Stmt.AllBound table [] program) := by
  induction program with
  | nil => exact .none trivial
  | cons s ss ih =>
    rw [List.forall_mem_cons] at h
    obtain ⟨hnodupLeft, hnodupRight, -⟩ := List.nodup_append.1 hnodup
    cases hsurvey : s.surveyTop with
    | mk notes result =>
      cases result with
      | error e =>
        rw [hsurvey] at h
        cases h.1
      | ok scopes =>
        obtain ⟨-, hs⟩ := s.surveyed hnodupLeft hsurvey
        have hafter : s.scopesAfter [] = [] := by cases s <;> rfl
        have huses : localUses (s :: ss) = notes ++ localUses ss := by
          simp [localUses, hsurvey]
        rw [huses]
        refine (hs.and (ih hnodupRight h.2) hnodup).imp fun hbound => ?_
        rw [Stmt.AllBound, hafter]
        exact hbound

/-- A program notes uses at its own nodes alone. -/
theorem within_localUses {program : List Stmt}
    (hnodup : (Stmt.idsAll program).Nodup)
    (h : ∀ s ∈ program, s.surveyTop.error? = none) :
    Within (localUses program) (Stmt.idsAll program) :=
  let noTable : Table := fun _ => none
  have hs : Surveyed noTable _ _ _ := surveyed_program hnodup h
  hs.within

/-- A program is bound by the table in which its uses are recorded, if
nothing was there at its nodes before. -/
theorem allBound_record {depths : Depths} {program : List Stmt}
    (hnodup : (Stmt.idsAll program).Nodup)
    (hfresh : ∀ id ∈ Stmt.idsAll program, depths[id]? = none)
    (h : ∀ s ∈ program, s.surveyTop.error? = none) :
    Stmt.AllBound (fun id => (depths.record (localUses program))[id]?) []
      program :=
  (surveyed_program hnodup h).bound fun id hid =>
    Depths.getElem?_record_of_none (hfresh id hid) _

end Lox
