/-
A walk through a program that keeps a stack. The surveys of `Binding`
hand the scopes on from part to part, and each statement of the top level
gets new ones. A walker has one stack of frames for the whole program: it
enters names in the innermost frame, takes frames up and down around
blocks and functions, also where it leaves them because of an error, and
goes on to the next statement of the top level with what it has. It finds
the same errors and reports the same uses (`walkProgram_eq`), because
behind every statement of the top level, one with an error too, the stack
is empty again and no function is open.

# What is kept

In the middle of a walk the frames have the names of the scopes that the
survey is among, and only the variable whose initializer is walked
through is not ready (`Agrees`). An error may leave the innermost frame
changed, but none of the others (`Leads`). The frame that a block or a
function has put on top is taken down again, and so the frames are what
they were.
-/
import Mathlib.Data.List.ReduceOption
import Lox.Proofs.Scoping.Violations

namespace Lox

-- ============================================================= the walker

/-- The names of a scope, the latest entry of each first, with whether
the name is ready to be read. -/
abbrev Frame := List (String × Bool)

/-- What a walk goes on with. -/
structure Walker where
  /-- The scopes around, the innermost first. -/
  frames : List Frame
  /-- How many functions are around. -/
  functions : Nat
  /-- The uses that were reported. -/
  reports : List LocalUse

/-- The walker between statements of the top level, with this reported. -/
def Walker.top (reports : List LocalUse) : Walker := ⟨[], 0, reports⟩

/-- A part of a walk. What it has done stays so when it ends with an
error. -/
abbrev Walk := EStateM BindingError Walker Unit

namespace Walk

/-- Enters a name, as not ready, in the innermost frame, unless there is
none. -/
def declare (name : Name) : Walk := fun w =>
  match w.frames with
  | [] => .ok () w
  | frame :: outer =>
    if (frame.lookup name.text).isSome then
      .error ⟨.declaredTwice name.text, name.pos⟩ w
    else
      .ok () { w with frames := ((name.text, false) :: frame) :: outer }

/-- Makes a name ready. -/
def define (name : Name) : Walk := fun w =>
  match w.frames with
  | [] => .ok () w
  | frame :: outer =>
    .ok () { w with frames := ((name.text, true) :: frame) :: outer }

/-- Reports how many frames out a name is entered, if it is. -/
def use (kind : UseKind) (node : Node) (name : String) : Walk := fun w =>
  match w.frames.findIdx? fun frame => (frame.lookup name).isSome with
  | none => .ok () w
  | some depth =>
    .ok () { w with reports := w.reports ++ [⟨node, name, kind, depth⟩] }

/-- Reports a read, unless the name is not ready. -/
def read (node : Node) (name : String) : Walk := fun w =>
  if (w.frames.head?.bind (·.lookup name)) = some false then
    .error ⟨.readInInitializer name, node.pos⟩ w
  else
    use .read node name w

/-- Walks with a frame of its own, which is taken down also after an
error. -/
def inScope (walk : Walk) : Walk := fun w =>
  match walk { w with frames := [] :: w.frames } with
  | .ok _ w' => .ok () { w' with frames := w'.frames.tail }
  | .error e w' => .error e { w' with frames := w'.frames.tail }

/-- Walks with one more function around, also after an error one less. -/
def inFunction (walk : Walk) : Walk := fun w =>
  match walk { w with functions := w.functions + 1 } with
  | .ok _ w' => .ok () { w' with functions := w'.functions - 1 }
  | .error e w' => .error e { w' with functions := w'.functions - 1 }

/-- Stops at a return that no function is around. -/
def leave (node : Node) : Walk := fun w =>
  if w.functions = 0 then .error ⟨.strayReturn, node.pos⟩ w else .ok () w

end Walk

mutual

/-- Walks through an expression. -/
def Expr.walk : Expr → Walk
  | .literal _ _ => pure ()
  | .var node name => Walk.read node name
  | .assign node name value => do
      value.walk
      Walk.use .write node name
  | .group _ inner => inner.walk
  | .unary _ _ operand => operand.walk
  | .binary _ _ left right | .logical _ _ left right => do
      left.walk
      right.walk
  | .call _ _ callee args => do
      callee.walk
      walkAll args

/-- Walks through some expressions. -/
def Expr.walkAll : List Expr → Walk
  | [] => pure ()
  | e :: es => do
      e.walk
      walkAll es

end

/-- Walks through an expression that may be missing. -/
def Expr.walkOf : Option Expr → Walk
  | none => pure ()
  | some e => e.walk

/-- Enters the parameters of a function. -/
def Walk.parameters : List Name → Walk
  | [] => pure ()
  | name :: names => do
      declare name
      define name
      parameters names

mutual

/-- Walks through a statement. -/
def Stmt.walk : Stmt → Walk
  | .expr _ e | .print _ e => e.walk
  | .varDecl _ name init => do
      Walk.declare name
      Expr.walkOf init
      Walk.define name
  | .funDecl _ name _ params _ body => do
      Walk.declare name
      Walk.define name
      Walk.inFunction <| Walk.inScope do
        Walk.parameters params
        walkAll body
  | .block _ body => Walk.inScope (walkAll body)
  | .cond _ test yes none => do
      test.walk
      yes.walk
  | .cond _ test yes (some no) => do
      test.walk
      yes.walk
      no.walk
  | .loop _ test body => do
      test.walk
      body.walk
  | .ret node value => do
      Walk.leave node
      Expr.walkOf value

/-- Walks through some statements. -/
def Stmt.walkAll : List Stmt → Walk
  | [] => pure ()
  | s :: ss => do
      s.walk
      walkAll ss

end

/-- Walks through the statements of the top level. An error ends one of
them, and is kept; the walker goes on. -/
def walkProgram : List Stmt → Walker → List BindingError × Walker
  | [], w => ([], w)
  | s :: ss, w =>
    match s.walk w with
    | .ok _ w' => walkProgram ss w'
    | .error e w' => (e :: (walkProgram ss w').1, (walkProgram ss w').2)

-- ============================================================== what is kept

/-- The frames have the names of the scopes, and the names are ready but
for the one that is pending. -/
structure Agrees (w : Walker) (inside : Bool) (scopes : Scopes)
    (pending : Option String) : Prop where
  names : List.Forall₂ (fun frame scope => ∀ name : String,
    (List.lookup name frame).isSome = true ↔ name ∈ scope) w.frames scopes
  waiting : ∀ name : String,
    w.frames.head?.bind (List.lookup name) = some false ↔ pending = some name
  ready : ∀ frame ∈ w.frames.tail, ∀ name : String,
    List.lookup name frame ≠ some false
  functions : w.functions ≠ 0 ↔ inside = true

/-- The walker has reported this, and has touched no frame below the
innermost. -/
structure Leads (w : Walker) (notes : List LocalUse) (w' : Walker) :
    Prop where
  reports : w'.reports = w.reports ++ notes
  functions : w'.functions = w.functions
  height : w'.frames.length = w.frames.length
  below : w'.frames.tail = w.frames.tail

/-- The walk has ended as the survey does: with an error, or with
something that goes with the walker. -/
def Tracks {α : Type} (w : Walker) (s : Names α) (post : α → Walker → Prop) :
    EStateM.Result BindingError Walker Unit → Prop
  | .ok _ w' => Leads w s.notes w' ∧ ∃ a, s.result = .ok a ∧ post a w'
  | .error e w' => Leads w s.notes w' ∧ s.result = .error e

variable {w w' : Walker} {inside : Bool} {scopes : Scopes}
  {pending : Option String}

namespace Leads

theorem refl (w : Walker) : Leads w [] w := ⟨by simp, rfl, rfl, rfl⟩

theorem trans {notes notes' : List LocalUse} {w₁ : Walker}
    (h : Leads w notes w₁) (h' : Leads w₁ notes' w') :
    Leads w (notes ++ notes') w' where
  reports := by rw [h'.reports, h.reports, List.append_assoc]
  functions := h'.functions.trans h.functions
  height := h'.height.trans h.height
  below := h'.below.trans h.below

end Leads

namespace Agrees

/-- The names that were reported do not matter. -/
theorem congr (h : Agrees w inside scopes pending)
    (hframes : w'.frames = w.frames)
    (hfunctions : w'.functions = w.functions) :
    Agrees w' inside scopes pending where
  names := hframes ▸ h.names
  waiting := hframes ▸ h.waiting
  ready := hframes ▸ h.ready
  functions := hfunctions ▸ h.functions

/-- A new frame has no names. -/
theorem enter (h : Agrees w inside scopes none) :
    Agrees { w with frames := [] :: w.frames } inside ([] :: scopes)
      none where
  names := .cons (by simp) h.names
  waiting := by simp
  ready frame hframe name := by
    cases hframes : w.frames with
    | nil => simp [hframes] at hframe
    | cons top outer =>
      rw [List.tail_cons, hframes] at hframe
      rcases List.mem_cons.1 hframe with rfl | hframe
      · have hwaiting := h.waiting name
        simpa [hframes] using hwaiting
      · exact h.ready frame (by simpa [hframes] using hframe) name
  functions := h.functions

/-- In the body of a function. -/
theorem call (h : Agrees w inside scopes pending) :
    Agrees { w with functions := w.functions + 1 } true scopes pending where
  names := h.names
  waiting := h.waiting
  ready := h.ready
  functions := by simp

/-- Frames and scopes bind a name equally far out. -/
theorem depth?_eq (h : Agrees w inside scopes pending) (name : String) :
    (w.frames.findIdx? fun frame => (frame.lookup name).isSome)
      = scopes.depth? name := by
  have hnames := h.names
  generalize w.frames = frames at hnames
  clear h
  induction hnames with
  | nil => rfl
  | @cons frame scope frames scopes hframe _ ih =>
    rw [List.findIdx?_cons, Scopes.depth?_cons, ih]
    by_cases hname : name ∈ scope
    · simp [hname, (hframe name).2 hname]
    · have habsent : ¬ (frame.lookup name).isSome = true :=
        fun hsome => hname ((hframe name).1 hsome)
      simp [hname, habsent]

end Agrees

namespace Tracks

variable {α β : Type} {s : Names α} {post : α → Walker → Prop}

theorem done {a : α} (h : post a w) :
    Tracks w (.done a) post (.ok () w) :=
  ⟨.refl w, a, rfl, h⟩

/-- One part after another. -/
theorem bind {f : α → Names β} {post' : β → Walker → Prop} {r r' : Walk}
    (hr : Tracks w s post (r w))
    (hf : ∀ a w₁, post a w₁ → Tracks w₁ (f a) post' (r' w₁)) :
    Tracks w (s >>= f) post' ((r >>= fun _ => r') w) := by
  show Tracks w (s.andThen f) post' _
  cases hrun : r w with
  | error e w₁ =>
    rw [hrun] at hr
    obtain ⟨hleads, hresult⟩ := hr
    rw [Sequencing.bind_of_error hrun]
    simp only [Tracks, Survey.andThen, hresult]
    exact ⟨hleads, trivial⟩
  | ok _ w₁ =>
    rw [hrun] at hr
    obtain ⟨hleads, a, hresult, hpost⟩ := hr
    have hrest := hf a w₁ hpost
    rw [Sequencing.bind_of_ok hrun]
    simp only [Survey.andThen, hresult]
    cases hrun' : r' w₁ with
    | error e w₂ =>
      rw [hrun'] at hrest
      exact ⟨hleads.trans hrest.1, hrest.2⟩
    | ok _ w₂ =>
      rw [hrun'] at hrest
      obtain ⟨hleads', hfound⟩ := hrest
      exact ⟨hleads.trans hleads', hfound⟩

/-- A survey that ends with something found on the way. -/
theorem ending {b : β} {post' : β → Walker → Prop}
    {result : EStateM.Result BindingError Walker Unit}
    (h : Tracks w s post result) (hpost : ∀ a w₁, post a w₁ → post' b w₁) :
    Tracks w (s >>= fun _ => pure b) post' result := by
  show Tracks w (s.andThen fun _ => .done b) post' _
  match result, h with
  | .error e w₁, ⟨hleads, hresult⟩ =>
    simp only [Tracks, Survey.andThen, hresult]
    exact ⟨hleads, trivial⟩
  | .ok _ w₁, ⟨hleads, a, hresult, ha⟩ =>
    simp only [Tracks, Survey.andThen, hresult]
    exact ⟨by simpa [Survey.done] using hleads, b, rfl, hpost a w₁ ha⟩

/-- What the survey must end with, if it ends. -/
theorem exact {all : List LocalUse} {a : α}
    {result : EStateM.Result BindingError Walker Unit} (hs : s.Follows all a)
    (h : Tracks w s post result) :
    Tracks w s (fun _ w' => post a w') result := by
  match result, h with
  | .error e w₁, h => exact h
  | .ok _ w₁, ⟨hleads, b, hresult, hpost⟩ =>
    rcases hs with rfl | ⟨e, hstop, -⟩
    · obtain rfl : a = b := Except.ok.inj hresult
      exact ⟨hleads, a, rfl, hpost⟩
    · rw [hstop] at hresult
      cases hresult

/-- The frame that is put on top is taken down, and the others are what
they were. -/
theorem inScope {r : Walk}
    (h : Tracks { w with frames := [] :: w.frames } s post
      (r { w with frames := [] :: w.frames })) :
    Tracks w s (fun _ w' => w'.frames = w.frames ∧
      w'.functions = w.functions) (Walk.inScope r w) := by
  unfold Walk.inScope
  have hleads {notes : List LocalUse} {w₁ : Walker}
      (h : Leads { w with frames := [] :: w.frames } notes w₁) :
      Leads w notes { w₁ with frames := w₁.frames.tail } ∧
        w₁.frames.tail = w.frames :=
    ⟨⟨h.reports, h.functions, by rw [h.below]; rfl, by rw [h.below]; rfl⟩,
      h.below⟩
  match r { w with frames := [] :: w.frames }, h with
  | .error e w₁, ⟨h, hresult⟩ => exact ⟨(hleads h).1, hresult⟩
  | .ok _ w₁, ⟨h, a, hresult, _⟩ =>
    exact ⟨(hleads h).1, a, hresult, (hleads h).2, h.functions⟩

/-- The function that is counted is discounted. -/
theorem inFunction {r : Walk}
    (h : Tracks { w with functions := w.functions + 1 } s
      (fun _ w' => w'.frames = w.frames ∧ w'.functions = w.functions + 1)
      (r { w with functions := w.functions + 1 })) :
    Tracks w s (fun _ w' => w'.frames = w.frames ∧
      w'.functions = w.functions) (Walk.inFunction r w) := by
  unfold Walk.inFunction
  have hleads {notes : List LocalUse} {w₁ : Walker}
      (h : Leads { w with functions := w.functions + 1 } notes w₁) :
      Leads w notes { w₁ with functions := w₁.functions - 1 } :=
    ⟨h.reports, by rw [h.functions]; rfl, h.height, h.below⟩
  match r { w with functions := w.functions + 1 }, h with
  | .error e w₁, ⟨h, hresult⟩ => exact ⟨hleads h, hresult⟩
  | .ok _ w₁, ⟨h, a, hresult, hframes, hfunctions⟩ =>
    exact ⟨hleads h, a, hresult, hframes, by rw [hfunctions]; rfl⟩

end Tracks

-- ============================================================ single steps

theorem lookup_entry (frame : Frame) (name other : String) (ready : Bool) :
    List.lookup other ((name, ready) :: frame)
      = if other = name then some ready else List.lookup other frame := by
  by_cases h : other = name
  · simp [h]
  · rw [List.lookup_cons, beq_false_of_ne h, if_neg h]

/-- Declaring a name notes it as not yet ready, in the walker's innermost
frame and in the scopes alike. -/
theorem tracks_declare (h : Agrees w inside scopes none) (name : Name) :
    Tracks w (scopes.declare name)
      (fun scopes' w' =>
        Agrees w' inside scopes' (scopes'.pending name.text))
      (Walk.declare name w) := by
  obtain ⟨frames, functions, reports⟩ := w
  unfold Walk.declare Scopes.declare
  have hnames := h.names
  cases hnames with
  | nil => exact .done h
  | @cons frame scope frames outer hframe houter =>
    simp only [hframe name.text]
    split
    case isTrue => exact ⟨.refl _, rfl⟩
    case isFalse =>
    refine ⟨⟨by simp [Survey.done], rfl, rfl, rfl⟩, _, rfl, ?_⟩
    refine ⟨.cons (fun other => ?_) houter, fun other => ?_, h.ready,
      h.functions⟩
    · rw [lookup_entry, List.mem_cons, ← hframe other]
      split <;> simp_all
    -- Of the innermost frame only the new name is not ready.
    · have hwaiting : List.lookup other frame ≠ some false := by
        simpa using h.waiting other
      simp only [List.head?_cons, Option.bind_some, lookup_entry,
        Scopes.pending, List.isEmpty_cons, Bool.false_eq_true, ↓reduceIte,
        Option.some.injEq]
      split
      case isTrue hother => simp [hother]
      case isFalse hother => simp [hwaiting, Ne.symm hother]

/-- Defining it makes it ready. -/
theorem tracks_define (name : Name)
    (h : Agrees w inside scopes (scopes.pending name.text)) :
    Tracks w (.done scopes)
      (fun scopes' w' => Agrees w' inside scopes' none)
      (Walk.define name w) := by
  obtain ⟨frames, functions, reports⟩ := w
  unfold Walk.define
  have hnames := h.names
  cases hnames with
  | nil => exact .done h
  | @cons frame scope frames outer hframe houter =>
    refine ⟨⟨by simp [Survey.done], rfl, rfl, rfl⟩, _, rfl, ?_⟩
    have hwaiting (other : String) :
        List.lookup other frame = some false ↔ name.text = other := by
      simpa [Scopes.pending] using h.waiting other
    refine ⟨.cons (fun other => ?_) houter, fun other => ?_, h.ready,
      h.functions⟩
    · rw [lookup_entry, ← hframe other]
      split
      case isTrue hother => simp [(hwaiting other).2 hother.symm]
      case isFalse => rfl
    · simp only [List.head?_cons, Option.bind_some, lookup_entry,
        reduceCtorEq, iff_false]
      split
      case isTrue => simp
      case isFalse hother =>
        exact fun hfalse => hother ((hwaiting other).1 hfalse).symm

/-- A function and a parameter are ready as soon as they are entered. -/
theorem tracks_enter (h : Agrees w inside scopes none) (name : Name) :
    Tracks w (scopes.declare name)
      (fun scopes' w' => Agrees w' inside scopes' none)
      ((Walk.declare name >>= fun _ => Walk.define name) w) := by
  have hboth := (tracks_declare h name).bind (f := .done)
    fun scopes' w₁ h₁ => tracks_define name h₁
  rwa [show scopes.declare name >>= Survey.done = scopes.declare name from
    Survey.andThen_done _] at hboth

theorem tracks_parameters (names : List Name)
    (h : Agrees w inside scopes none) :
    Tracks w (scopes.declareAll names)
      (fun scopes' w' => Agrees w' inside scopes' none)
      (Walk.parameters names w) := by
  induction names generalizing w scopes with
  | nil => exact .done h
  | cons name names ih =>
    rw [Walk.parameters, ← bind_assoc]
    exact (tracks_enter h name).bind fun scopes' w₁ h₁ => ih h₁

/-- The walker finds a name in the frame at which the scopes have it. -/
theorem tracks_use (h : Agrees w inside scopes pending) (kind : UseKind)
    (node : Node) (name : String) :
    Tracks w (scopes.use kind node name)
      (fun _ w' => Agrees w' inside scopes pending)
      (Walk.use kind node name w) := by
  unfold Walk.use Scopes.use
  rw [h.depth?_eq name]
  cases scopes.depth? name with
  | none => exact .done h
  | some depth =>
    exact ⟨⟨rfl, rfl, rfl, rfl⟩, (), rfl, h.congr rfl rfl⟩

-- ============================================================ expressions

mutual

/-- One case per expression. The walker's frames are as before behind each. -/
theorem Expr.tracks {w : Walker} (h : Agrees w inside scopes pending) :
    (e : Expr) → Tracks w (e.survey scopes pending)
      (fun _ w' => Agrees w' inside scopes pending) (e.walk w)
  | .literal _ _ => .done h
  | .var node name => by
      rw [Expr.survey, Expr.walk, Walk.read]
      simp only [h.waiting name]
      split
      · exact ⟨.refl w, rfl⟩
      · exact tracks_use h .read node name
  | .assign node name value =>
      (value.tracks h).bind fun _ _ h₁ => tracks_use h₁ .write node name
  | .group _ inner => inner.tracks h
  | .unary _ _ operand => operand.tracks h
  | .binary _ _ left right | .logical _ _ left right =>
      (left.tracks h).bind fun _ _ h₁ => right.tracks h₁
  | .call _ _ callee args =>
      (callee.tracks h).bind fun _ _ h₁ => tracks_all h₁ args

/-- The same for some expressions. -/
theorem Expr.tracks_all {w : Walker} (h : Agrees w inside scopes pending) :
    (es : List Expr) → Tracks w (Expr.surveyAll scopes pending es)
      (fun _ w' => Agrees w' inside scopes pending) (Expr.walkAll es w)
  | [] => .done h
  | e :: es => (e.tracks h).bind fun _ _ h₁ => tracks_all h₁ es

end

theorem Expr.tracks_init (init : Option Expr) (name : String)
    (h : Agrees w inside scopes (scopes.pending name)) :
    Tracks w (Expr.surveyInit scopes name init)
      (fun _ w' => Agrees w' inside scopes (scopes.pending name))
      (Expr.walkOf init w) := by
  cases init with
  | none => exact .done h
  | some e => exact e.tracks h

-- ============================================================= statements

/-- A branch leaves the scopes as they were. -/
theorem tracks_branch {s : Stmt}
    {result : EStateM.Result BindingError Walker Unit}
    (hplain : s.declares = false)
    (h : Tracks w (s.survey inside scopes)
      (fun scopes' w' => Agrees w' inside scopes' none) result) :
    Tracks w (s.survey inside scopes)
      (fun _ w' => Agrees w' inside scopes none) result := by
  have hexact := h.exact s.follows_survey
  rwa [s.scopesAfter_of_not_declares hplain] at hexact

mutual

/-- A walker in the middle of a program goes through a statement as the
survey does. -/
theorem Stmt.tracks {w : Walker} {inside : Bool} {scopes : Scopes}
    (h : Agrees w inside scopes none) : (s : Stmt) → s.WellFormed →
      Tracks w (s.survey inside scopes)
        (fun scopes' w' => Agrees w' inside scopes' none) (s.walk w)
  | .expr _ e, _ | .print _ e, _ => (e.tracks h).ending fun _ _ h₁ => h₁
  | .varDecl _ name init, _ =>
      (tracks_declare h name).bind fun _ _ h₁ =>
        (Expr.tracks_init init name.text h₁).bind fun _ _ h₂ =>
          tracks_define name h₂
  | .funDecl _ name _ params _ body, hformed => by
      rw [Stmt.walk, ← bind_assoc]
      -- The name is ready in the body, where the function may call itself.
      refine (tracks_enter h name).bind fun scopes₁ w₁ h₁ => ?_
      rw [← bind_assoc]
      have hbody : Tracks w₁
          (Scopes.declareAll ([] :: scopes₁) params >>=
            fun inner => Stmt.surveyAll true inner body)
          (fun _ w' => w'.frames = w₁.frames ∧ w'.functions = w₁.functions)
          (Walk.inFunction (Walk.inScope (do
            Walk.parameters params
            walkAll body)) w₁) :=
        .inFunction (.inScope ((tracks_parameters params
          (Agrees.enter h₁.call)).bind fun _ _ h₂ =>
            tracks_all h₂ body hformed))
      exact hbody.ending fun _ _ hsame => h₁.congr hsame.1 hsame.2
  | .block _ body, hformed =>
      (Tracks.inScope (tracks_all h.enter body hformed)).ending
        fun _ _ hsame => h.congr hsame.1 hsame.2
  | .cond _ test yes none, ⟨_, hplain, hformed⟩ =>
      (test.tracks h).bind fun _ _ h₁ =>
        (tracks_branch hplain (yes.tracks h₁ hformed)).ending
          fun _ _ h₂ => h₂
  | .cond _ test yes (some no), ⟨_, ⟨hplain, hformed⟩, hplain', hformed'⟩ =>
      (test.tracks h).bind fun _ _ h₁ =>
        (tracks_branch hplain (yes.tracks h₁ hformed)).bind fun _ _ h₂ =>
          (tracks_branch hplain' (no.tracks h₂ hformed')).ending
            fun _ _ h₃ => h₃
  | .loop _ test body, ⟨_, hplain, hformed⟩ =>
      (test.tracks h).bind fun _ _ h₁ =>
        (tracks_branch hplain (body.tracks h₁ hformed)).ending
          fun _ _ h₂ => h₂
  | .ret node value, _ => by
      rw [Stmt.walk, Sequencing.bind_apply, Walk.leave]
      cases inside with
      | false =>
        have houtside : w.functions = 0 := by simpa using h.functions
        rw [if_pos houtside]
        exact ⟨.refl w, rfl⟩
      | true =>
        rw [if_neg (h.functions.2 rfl)]
        cases value with
        | none => exact .done h
        | some e => exact (e.tracks h).ending fun _ _ h₁ => h₁

/-- The same for some statements. -/
theorem Stmt.tracks_all {w : Walker} {inside : Bool} {scopes : Scopes}
    (h : Agrees w inside scopes none) : (ss : List Stmt) →
      AllWellFormed ss →
        Tracks w (Stmt.surveyAll inside scopes ss)
          (fun scopes' w' => Agrees w' inside scopes' none)
          (Stmt.walkAll ss w)
  | [], _ => .done h
  | s :: ss, hformed =>
      (s.tracks h hformed.1).bind fun _ _ h₁ =>
        tracks_all h₁ ss hformed.2

end

-- =============================================================== programs

/-- Behind a statement of the top level the stack is empty and no function
is open, also if the statement had an error. -/
theorem walk_top (s : Stmt) (hformed : s.WellFormed)
    (reports : List LocalUse) :
    s.walk (.top reports) = (match s.surveyTop.error? with
      | none => .ok () (.top (reports ++ s.surveyTop.notes))
      | some e =>
        .error e (.top (reports ++ s.surveyTop.notes))) := by
  have htop : Agrees (.top reports) false [] none :=
    ⟨.nil, by simp [Walker.top], by simp [Walker.top],
      by simp [Walker.top]⟩
  -- A walker that has left all scopes and functions is back at the top.
  have hleads {notes : List LocalUse} {w : Walker}
      (h : Leads (.top reports) notes w) :
      w = .top (reports ++ notes) := by
    obtain ⟨frames, functions, reports'⟩ := w
    obtain rfl : reports' = reports ++ notes := h.reports
    obtain rfl : functions = 0 := h.functions
    obtain rfl : frames = [] := List.length_eq_zero_iff.1 h.height
    rfl
  have htracks := s.tracks htop hformed
  match hwalk : s.walk (.top reports) with
  | .ok _ w =>
    rw [hwalk] at htracks
    obtain ⟨h, scopes, hresult, -⟩ := htracks
    rw [Stmt.surveyTop, Survey.error?, hresult, hleads h]
  | .error e w =>
    rw [hwalk] at htracks
    obtain ⟨h, hresult⟩ := htracks
    rw [Stmt.surveyTop, Survey.error?, hresult, hleads h]

/-- One walk through all statements finds the errors that the surveys of
the statements find, and reports what they note. -/
theorem walkProgram_eq (program : List Stmt)
    (hformed : Stmt.AllWellFormed program) (reports : List LocalUse) :
    walkProgram program (.top reports)
      = (bindingErrors program,
          .top (reports ++ localUses program)) := by
  induction program generalizing reports with
  | nil => simp [walkProgram, bindingErrors, localUses]
  | cons s ss ih =>
    rw [walkProgram, walk_top s hformed.1, bindingErrors, localUses,
      List.filterMap_cons, List.flatMap_cons]
    cases s.surveyTop.error? with
    | none =>
      simp only [ih hformed.2, List.append_assoc]
      rfl
    | some e =>
      simp only [ih hformed.2, List.append_assoc]
      rfl

/-- The local uses of a program, or its errors, found by one walk. -/
def bindByWalk (program : List Stmt) :
    Except (Diagnostics BindingError) (List LocalUse) :=
  let found := walkProgram program (.top [])
  match Diagnostics.ofList? found.1 with
  | some errors => .error errors
  | none => .ok found.2.reports

/-- The walker with its frames and the recursive survey accept the same
programs, with the same notes and the same errors. -/
theorem bindByWalk_eq {program : List Stmt}
    (hformed : Stmt.AllWellFormed program) :
    bindByWalk program = bindProgram program := by
  unfold bindByWalk bindProgram
  simp only [walkProgram_eq program hformed, List.nil_append]
  cases Diagnostics.ofList? (bindingErrors program) <;> rfl

/-- A statement of the top level is fine, or it has this error, the first
that is met in it. -/
def Stmt.Judged (s : Stmt) : Option BindingError → Prop
  | none => Faultless (s.occurrences .top)
  | some e => FirstViolation (s.occurrences .top) e

/-- A statement is judged in one way only. -/
theorem Stmt.Judged.unique {s : Stmt} {verdict verdict' : Option BindingError}
    (h : s.Judged verdict) (h' : s.Judged verdict') : verdict = verdict' := by
  have hclash {e : BindingError} (hnone : s.Judged none) :
      ¬ s.Judged (some e) := fun ⟨before, o, after, hmet, hwrong, _⟩ =>
    hnone before o after hmet e hwrong
  cases verdict <;> cases verdict'
  case none.none => rfl
  case none.some => exact absurd h' (hclash h)
  case some.none => exact absurd h (hclash h')
  case some.some => exact congrArg some (FirstViolation.unique h h')

theorem Stmt.judged_of_verdict {s : Stmt} {verdict : Option BindingError}
    (h : Verdict [] (s.occurrences .top) verdict) : s.Judged verdict := by
  cases verdict with
  | none => exact h.faultless
  | some e => exact h.firstViolation

theorem bindProgram_eq_error_iff {program : List Stmt}
    {errors : Diagnostics BindingError} :
    bindProgram program = .error errors
      ↔ errors.toList = bindingErrors program := by
  rw [bindProgram, ← Diagnostics.ofList?_eq_some]
  cases Diagnostics.ofList? (bindingErrors program) <;> simp

theorem Stmt.allWellFormed_append {as bs : List Stmt} :
    AllWellFormed (as ++ bs) ↔ AllWellFormed as ∧ AllWellFormed bs := by
  induction as with
  | nil => simp [AllWellFormed]
  | cons s ss ih =>
    rw [List.cons_append, AllWellFormed, AllWellFormed, ih, and_assoc]

/-- The errors of a program are those of its statements. -/
theorem judged_bindingErrors {program : List Stmt}
    (h : ∀ s ∈ program, s.Judged s.surveyTop.error?) :
    ∃ verdicts, List.Forall₂ Stmt.Judged program verdicts ∧
      bindingErrors program = verdicts.reduceOption := by
  refine ⟨program.map (·.surveyTop.error?), ?_, ?_⟩
  · rw [List.forall₂_map_right_iff, List.forall₂_same]
    exact h
  · rw [List.reduceOption, List.filterMap_map]
    rfl

/-- The names of a program that was read are rejected exactly if
something in a statement of the top level is wrong, with one error for
each such statement, for what is met first in it. One walker with a stack
of scopes finds the same: between statements of the top level, also
behind one with an error, its stack is empty and no function is open, and
what it reports in a statement without an error is what is noted in that
statement alone. -/
theorem bindProgram_judged {ts : List Token} {eof : Token} {n n' : Nat}
    {program : List Stmt} (heof : eof.kind = .endOfText)
    (hts : ∀ t ∈ ts, t.kind ≠ .endOfText)
    (hparse : parse (ts ++ [eof]) n = ⟨.ok program, n'⟩) :
    ((∃ errors, bindProgram program = .error errors) ↔
      ∃ s ∈ program, ∃ before o after e,
        s.occurrences .top = before ++ o :: after ∧ Violates before o e) ∧
    (∀ errors, bindProgram program = .error errors →
      ∃ verdicts, List.Forall₂ Stmt.Judged program verdicts ∧
        errors.toList = verdicts.reduceOption) ∧
    bindByWalk program = bindProgram program ∧
    ∀ front s back, program = front ++ s :: back →
      ∃ errors reports verdict uses,
        walkProgram front (.top []) = (errors, .top reports) ∧
        s.Judged verdict ∧
        (match verdict with
          | none => bindProgram [s] = .ok uses ∧
              s.walk (.top reports) = .ok () (.top (reports ++ uses))
          | some e =>
              s.walk (.top reports) = .error e (.top (reports ++ uses))) := by
  obtain ⟨hformed, hnodup⟩ := formed_of_parse heof hts hparse
  have hjudged : ∀ s ∈ program, s.Judged s.surveyTop.error? := fun s hs =>
    Stmt.judged_of_verdict (verdict_of_mem hformed hnodup s hs)
  refine ⟨⟨?_, ?_⟩, ?_, bindByWalk_eq hformed, ?_⟩
  · rintro ⟨errors, herrors⟩
    have hfirst : errors.first ∈ bindingErrors program := by
      rw [← bindProgram_eq_error_iff.1 herrors]
      exact List.mem_cons_self
    obtain ⟨s, hs, herror⟩ := List.mem_filterMap.1 hfirst
    have hjudgment := hjudged s hs
    rw [herror] at hjudgment
    obtain ⟨before, o, after, hmet, hviolates, -⟩ := hjudgment
    exact ⟨s, hs, before, o, after, _, hmet, hviolates⟩
  · rintro ⟨s, hs, before, o, after, e, hmet, hviolates⟩
    cases hbind : bindProgram program with
    | error errors => exact ⟨errors, rfl⟩
    | ok uses =>
      have hjudgment := hjudged s hs
      rw [(bindProgram_eq_ok_iff.1 hbind).2 s hs] at hjudgment
      exact absurd hviolates (hjudgment before o after hmet e)
  · intro errors herrors
    rw [bindProgram_eq_error_iff.1 herrors]
    exact judged_bindingErrors hjudged
  · rintro front s back rfl
    obtain ⟨hfront, hs, -⟩ := Stmt.allWellFormed_append.1 hformed
    refine ⟨_, _, s.surveyTop.error?, s.surveyTop.notes,
      walkProgram_eq front hfront [], hjudged s (by simp), ?_⟩
    have hwalk := walk_top s hs ([] ++ localUses front)
    cases herror : s.surveyTop.error? with
    | none =>
      rw [herror] at hwalk
      refine ⟨bindProgram_eq_ok_iff.2 ⟨?_, ?_⟩, hwalk⟩
      · simp [localUses]
      · simpa using herror
    | some e =>
      rw [herror] at hwalk
      exact hwalk

/-- Of three statements the first and the last are rejected, the first for
the second declaration and not for the read behind it. -/
theorem bindProgram_judged_twoOfThree :
    let token (kind : TokenKind) (lexeme : String) : Token :=
      ⟨kind, lexeme, .start⟩
    let tokens := [token .leftBrace "", token .kwVar "var",
      token .identifier "a", token .semicolon ";", token .kwVar "var",
      token .identifier "a", token .equal "=", token .identifier "a",
      token .semicolon ";", token .rightBrace "", token .leftBrace "",
      token .kwVar "var", token .identifier "b", token .semicolon ";",
      token .kwPrint "print", token .identifier "b", token .semicolon ";",
      token .rightBrace "", token .kwReturn "return", token .semicolon ";"]
    let node (id : Nat) : Node := ⟨id, .start⟩
    let name (text : String) : Name := ⟨text, .start⟩
    let program : List Stmt := [
      .block (node 3) [.varDecl (node 0) (name "a") none,
        .varDecl (node 2) (name "a") (some (.var (node 1) "a"))],
      .block (node 7) [.varDecl (node 4) (name "b") none,
        .print (node 6) (.var (node 5) "b")],
      .ret (node 8) none]
    let errors : Diagnostics BindingError :=
      ⟨⟨.declaredTwice "a", .start⟩, [⟨.strayReturn, .start⟩]⟩
    parse (tokens ++ [token .endOfText ""]) 0 = ⟨.ok program, 9⟩ ∧
      bindProgram program = .error errors ∧
      (∃ verdicts, List.Forall₂ Stmt.Judged program verdicts ∧
        errors.toList = verdicts.reduceOption) ∧
      ∃ reports verdict, (program[1]).Judged verdict ∧
        walkProgram (program.take 1) (.top [])
          = ([⟨.declaredTwice "a", .start⟩], .top reports) := by
  intro token tokens node name program errors
  obtain ⟨-, hverdicts, -, hwalk⟩ := @bindProgram_judged tokens
    (token .endOfText "") 0 9 program rfl (by decide) rfl
  obtain ⟨errors', reports, verdict, -, hfront, hjudged, -⟩ :=
    hwalk (program.take 1) program[1] (program.drop 2) rfl
  refine ⟨rfl, rfl, hverdicts errors rfl, reports, verdict, hjudged, ?_⟩
  obtain rfl : errors' = [⟨.declaredTwice "a", .start⟩] :=
    congrArg Prod.fst hfront.symm
  exact hfront

end Lox
