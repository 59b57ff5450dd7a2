import ObjScript.Proofs.Eval.Tame
import ObjScript.Proofs.Eval.Tracked
import ObjScript.Proofs.Scope.Apart

/-!
# Frames that follow the scopes

A chain of frames follows a stack of scopes if it has a frame for each of them, made for what opened the
scope, and ends with the built-in names (`Chain`).  A function or a block is sound if the frames that it
captured follow the scopes around its body (`Runnable`).  The invariant of a run says that all functions in
the store are sound (`Plan.Inv`); every step keeps it.

The same invariant carries the comparison of a run with one whose depths are forgotten.  There a frame has
to bind the names of its scope as well, as far as they are mentioned, and may bind no others.
-/

namespace ObjScript

/-- What is known about a run: the nodes that the analysis came to, and whether the run is compared with one
without depths.  In that case no two scopes share a name. -/
structure Plan where
  known : Visit → Prop
  forgets : Bool
  /-- The names that the program declares at its top level. -/
  top : List String
  asParsed : ∀ v, known v → v.node.AsParsed
  apart : forgets = true → ∀ v, known v → v.Apart top
  simple : forgets = true → ∀ v, known v → v.node.Simple

/-- The depths of the run that is compared. -/
def Plan.depth (π : Plan) : Option Nat → Option Nat :=
  if π.forgets then fun _ => none else id

/-- The frame itself binds the name. -/
def Tracked.Binds (σ : Tracked) (f : FrameId) (x : String) : Prop :=
  (σ.machine.store.frame f).bindings.has x = true

/-- Frames keep their scopes and their names. -/
structure Tracked.Grows (σ τ : Tracked) : Prop where
  origins : ∀ {i : Nat} {o : Opener}, σ.origins[i]? = some o → τ.origins[i]? = some o
  binds : ∀ {f : FrameId} {x : String}, σ.Binds f x → τ.Binds f x

theorem Tracked.Grows.refl (σ : Tracked) : σ.Grows σ :=
  ⟨id, id⟩

theorem Tracked.Grows.trans {σ τ υ : Tracked} (h : σ.Grows τ) (h' : τ.Grows υ) : σ.Grows υ :=
  ⟨fun hi => h'.origins (h.origins hi), fun hf => h'.binds (h.binds hf)⟩

/-- The frames of the chain were made for the scopes of the stack, one for each of them, and then come the
built-in names.  In a comparison each frame binds the names of its scope that are mentioned. -/
inductive Chain (π : Plan) (σ : Tracked) (mentioned : String → Prop) : Env → List Names → List Opener → Prop where
  | globals : Chain π σ mentioned [.globals] [] []
  | scope {f : FrameId} {o : Opener} {names : Names} {env : Env} {stack : List Names} {p : List Opener}
      (hf : f ≠ .globals) (ho : σ.origins[f.index]? = some o)
      (hn : π.forgets = true → (∀ d, o ≠ .members d) ∧ ∀ x ∈ names, mentioned x → σ.Binds f x)
      (h : Chain π σ mentioned env stack p) : Chain π σ mentioned (f :: env) (names :: stack) (o :: p)

section Chain

variable {π : Plan} {σ τ : Tracked} {mentioned mentioned' : String → Prop} {env : Env} {stack : List Names}
  {p : List Opener}

theorem Chain.mono (h : Chain π σ mentioned env stack p) (hg : σ.Grows τ) (hm : ∀ x, mentioned' x → mentioned x) :
    Chain π τ mentioned' env stack p := by
  induction h with
  | globals => exact .globals
  | scope hf ho hn _ ih =>
    refine .scope hf (hg.origins ho) (fun hforgets => ⟨(hn hforgets).1, fun x hx hmx => ?_⟩) ih
    exact hg.binds ((hn hforgets).2 x hx (hm x hmx))

/-- The names of a statement that has run are bound in the innermost frame. -/
theorem Chain.declare (h : Chain π σ mentioned env stack p) {names : List String}
    (hn : π.forgets = true → ∀ f ∈ env.head?, ∀ x ∈ names, mentioned x → σ.Binds f x) :
    Chain π σ mentioned env (declareTop names stack) p := by
  cases h with
  | globals => exact .globals
  | scope hf ho hnames h =>
    refine .scope hf ho (fun hforgets => ⟨(hnames hforgets).1, fun x hx hmx => ?_⟩) h
    rcases Names.mem_addAll.1 hx with hx | hx
    · exact (hnames hforgets).2 x hx hmx
    · exact hn hforgets _ rfl x hx hmx

/-- The chain splits into the frames of the scopes and the built-in names. -/
private theorem Chain.frames (h : Chain π σ mentioned env stack p) :
    ∃ frames, env = frames ++ [.globals] ∧ .globals ∉ frames ∧ frames.length = stack.length ∧
      frames.map (fun f => σ.origins[f.index]?) = p.map some := by
  induction h with
  | globals => exact ⟨[], rfl, List.not_mem_nil, rfl, rfl⟩
  | @scope f o _ _ _ _ hf ho _ _ ih =>
    obtain ⟨frames, rfl, hglobals, hlength, horigins⟩ := ih
    refine ⟨f :: frames, rfl, ?_, congrArg (· + 1) hlength, ?_⟩
    · rw [List.mem_cons, not_or]
      exact ⟨Ne.symm hf, hglobals⟩
    · rw [List.map_cons, List.map_cons, ho, horigins]

end Chain

/-- Going outward over the first frames of a chain. -/
theorem ancestor_append (before : Env) (f : FrameId) (after : Env) :
    Env.ancestor (before ++ f :: after) before.length = f :: after := by
  induction before with
  | nil => rfl
  | cons k before ih =>
    refine Eq.trans ?_ ih
    cases before <;> rfl

theorem depth?_lt {stack : List Names} {x : String} {d : Nat} (h : Resolve.depth? stack x = some d) :
    d < stack.length :=
  (List.findIdx?_eq_some_iff_getElem.1 h).1

/-- The depth of a reference. -/
def Expr.depth? : Expr → Option Nat
  | .variable ref | .selfRef ref | .superRef ref => ref.depth
  | .assign target _ _ _ => target.depth
  | _ => none

/-- The chain of frames at a reference follows the stack of scopes that the analysis had there: there are as
many frames before the built-in names as scopes, each made for what opened its scope, and going outward by
the depth of the reference is going over that many frames and no further. -/
structure Aligned (origins : Array Opener) (g : Sighting) (v : Visit) (frames : Env) : Prop where
  node : v.seen = .expr g.node
  env : g.env = frames ++ [.globals]
  globals : .globals ∉ frames
  length : frames.length = v.scopes.stack.length
  origins : frames.map (fun f => origins[f.index]?) = v.path.map some
  depth : ∀ d, g.node.depth? = some d → d < frames.length ∧
    Env.ancestor g.env d = frames.drop d ++ [.globals]

/-- A chain that follows the scopes of a visit is aligned with it, if the depth is the one that the analysis
found. -/
theorem Chain.aligned {π : Plan} {σ : Tracked} {mentioned : String → Prop} {env : Env} {v : Visit} {e : Expr}
    {x : String} (h : Chain π σ mentioned env v.scopes.stack v.path) (he : v.seen = .expr e)
    (hd : e.depth? = Resolve.depth? v.scopes.stack x) : ∃ frames, Aligned σ.origins ⟨env, e⟩ v frames := by
  obtain ⟨frames, rfl, hglobals, hlength, horigins⟩ := h.frames
  refine ⟨frames, he, rfl, hglobals, hlength, horigins, fun d hdepth => ?_⟩
  have hlt : d < frames.length := by
    rw [hlength]
    exact depth?_lt (hd.symm.trans hdepth)
  refine ⟨hlt, ?_⟩
  have hsplit : frames = frames.take d ++ frames[d] :: frames.drop (d + 1) := by
    rw [← List.drop_eq_getElem_cons hlt, List.take_append_drop]
  have hdrop : frames.drop d = frames[d] :: frames.drop (d + 1) := List.drop_eq_getElem_cons hlt
  have hancestor := ancestor_append (frames.take d) frames[d] (frames.drop (d + 1) ++ [.globals])
  rw [List.length_take_of_le (Nat.le_of_lt hlt), ← List.cons_append, ← List.append_assoc, ← hsplit, ← hdrop]
    at hancestor
  exact hancestor

theorem Aligned.mono {a b : Array Opener} {g : Sighting} {v : Visit} {frames : Env} (h : Aligned a g v frames)
    (hab : ∀ {i : Nat} {o : Opener}, a[i]? = some o → b[i]? = some o) : Aligned b g v frames := by
  have horigins : ∀ (frames : Env) (p : List Opener), frames.map (fun f => a[f.index]?) = p.map some →
      frames.map (fun f => b[f.index]?) = p.map some := by
    intro frames
    induction frames with
    | nil => exact fun p hp => hp
    | cons f frames ih =>
      intro p hp
      cases p with
      | nil => cases hp
      | cons o p =>
        obtain ⟨ho, hp⟩ := List.cons.inj hp
        exact congrArg₂ List.cons (hab ho) (ih p hp)
  exact { h with origins := horigins frames v.path h.origins }

namespace Plan

variable (π : Plan)

/-- The body can be run in the chain of frames: the analysis went through it in a scope with its parameters
around which there were the scopes that the frames were made for. -/
def Runnable (σ : Tracked) (params : List Param) (body : List Stmt) (env : Env) : Prop :=
  ∃ (stmts : List Stmt) (s : Scopes) (p : List Opener), body = (Stmt.resolveList stmts).value (s.enter params) ∧
    (∀ v ∈ Stmt.visitsList stmts (s.enter params) (.body params body :: p), π.known v) ∧
    Chain π σ (Mentioned (Stmt.nodesList stmts)) env s.stack p

/-- Functions and blocks can be run. -/
def Good (σ : Tracked) : Value → Prop
  | .function f => π.Runnable σ f.decl.params f.decl.body f.env
  | .block b => π.Runnable σ b.params b.body b.env
  | _ => True

/-- A method can be run once it is bound. -/
def GoodMethod (σ : Tracked) : Method → Prop
  | .closure f => π.forgets = false ∧ ∃ (stmts : List Stmt) (s : Scopes) (names : Names) (outer : List Names)
      (p : List Opener), f.decl.body = (Stmt.resolveList stmts).value (s.enter f.decl.params) ∧
      (∀ v ∈ Stmt.visitsList stmts (s.enter f.decl.params) (.body f.decl.params f.decl.body :: .members f.decl :: p),
        π.known v) ∧
      s.stack = names :: outer ∧ Chain π σ (Mentioned (Stmt.nodesList stmts)) f.env outer p
  | .alloc => True

/-- The invariant of a run. -/
structure Inv (σ : Tracked) : Prop where
  size : σ.origins.size = σ.machine.store.frames.size
  builtins : σ.origins[0]? = some .builtins
  program : σ.origins[1]? = some .program
  store : σ.machine.store.Holds (π.Good σ) (π.GoodMethod σ)
  sightings : ∀ g ∈ σ.sightings, ∃ v frames, π.known v ∧ Aligned σ.origins g v frames
  /-- In a comparison no frame shows an instance, and a frame binds only names that its scope declares. -/
  receiver : π.forgets = true → ∀ f, (σ.machine.store.frame f).receiver = none
  names : π.forgets = true → ∀ f x, f ≠ .globals → σ.Binds f x →
    ∃ o, σ.origins[f.index]? = some o ∧ x ∈ o.names π.top

end Plan

end ObjScript
