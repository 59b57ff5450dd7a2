import ObjScript.Proofs.Eval.Evaluation

/-!
# Execution follows the analysis

The evaluators for a statement agree if those for its parts do, one case for each construct, and so the
evaluators for every depth of nesting agree (`agrees_interp`).  A statement that ends without a result has
bound the names that it declares.
-/

namespace ObjScript

variable {π : Plan} {σ τ : Tracked} {env : Env} {nodes : List Node} {visits : List Visit} {stack : List Names}
  {p : List Opener}

/-- The parts of a statement. -/
private theorem Ready.inside {n : Node} {v : Visit} (h : Ready π σ env (n :: nodes) (v :: visits) stack p) :
    Ready π σ env nodes visits stack p :=
  h.part (.refl σ) (List.subset_cons_self _ _) (List.subset_cons_self _ _) rfl

section Statement

variable {t : Stmt} {s : Scopes}

/-- The statement is as the parser builds it. -/
private theorem Ready.asParsed (h : Ready π σ env t.nodes (t.visits s p) stack p) : (Node.stmt t).AsParsed :=
  π.asParsed _ (h.known _ (t.mem_visits s p))

private theorem Ready.simple (h : Ready π σ env t.nodes (t.visits s p) stack p) (hforgets : π.forgets = true) :
    (Node.stmt t).Simple :=
  π.simple hforgets _ (h.known _ (t.mem_visits s p))

/-- The names that the statement declares are among those of the innermost scope. -/
private theorem Ready.declares (h : Ready π σ env t.nodes (t.visits s p) stack p) (hforgets : π.forgets = true) :
    ∀ x ∈ t.declared, x ∈ innermostNames π.top p :=
  (π.apart hforgets _ (h.known _ (t.mem_visits s p))).declares

/-- Nothing is to be bound by a statement that declares nothing. -/
private theorem Done.ofGood {r : Option Value} (ht : π.forgets = true → t.declared = []) (hr : ∀ v ∈ r, π.Good σ v) :
    Done π env t σ r := by
  refine ⟨hr, fun hforgets _ _ _ x hx => ?_⟩
  rw [ht hforgets] at hx
  cases hx

/-- A declaration is done when the innermost frame binds its name. -/
private theorem Done.ofBinds {f : FrameId} {x : String} (ht : t.declared = [x])
    (hbinds : π.forgets = true → σ.Binds f x) :
    Done π (f :: env) t σ none := by
  refine ⟨nofun, fun hforgets _ k hk y hy => ?_⟩
  rw [ht] at hy
  rw [List.mem_singleton.1 hy, ← Option.some.inj hk]
  exact hbinds hforgets

end Statement

/-! ### Loops -/

/-- The outcome of a turn with other depths. -/
def Run.Turn.withDepths (g : Option Nat → Option Nat) : Run.Turn → Run.Turn
  | .again => .again
  | .done result => .done (result.map (Value.withDepths g))

/-- The result of a turn is sound. -/
def Plan.GoodTurn (π : Plan) (σ : Tracked) : Run.Turn → Prop
  | .again => True
  | .done result => ∀ v ∈ result, π.Good σ v

/-- If one turn agrees whenever it is taken, the loop agrees. -/
private theorem sim_loop {t : Track Run.Turn} {u : Run Run.Turn}
    (h : ∀ τ, σ.Grows τ → Sim π (Run.Turn.withDepths π.depth) π.GoodTurn τ t u) (n : Nat) :
    Sim π (Option.map (Value.withDepths π.depth)) (fun τ r => ∀ v ∈ r, π.Good τ v) σ (Run.loop t n)
      (Run.loop u n) := by
  induction n generalizing σ with
  | zero => exact .throw _
  | succ n ih =>
    refine .bind (h σ (.refl σ)) fun τ r hg hr => ?_
    cases r with
    | again => exact ih fun υ hg' => h υ (hg.trans hg')
    | done result => exact .pure (f := Option.map _) hr

private theorem isPlain_defaultValue (type : TypeExpr) : (Run.defaultValue type).IsPlain := by
  unfold Run.defaultValue
  split <;> trivial

private theorem withDepths_defaultValue {g : Option Nat → Option Nat} (type : TypeExpr) :
    (Run.defaultValue type).withDepths g = Run.defaultValue type :=
  Run.defaultValue_recoded (r := .depths g) type

section Parts

variable {i : Tracker} {j : Interp} (hi : Agrees π i j)

include hi

private theorem Agrees.holds (o : Option Expr) (s : Scopes) {σ : Tracked}
    (h : Ready π σ env (Expr.nodesOption o) (Expr.visitsOption o s p) s.stack p) :
    Sim π id (fun _ _ => True) σ (Run.holds i env ((Expr.resolveOption o).value s))
      (Run.holds j env (Expr.withDepthsOption π.depth ((Expr.resolveOption o).value s))) := by
  cases o with
  | none => exact .pure (f := id) trivial
  | some e =>
    refine .bind (hi.eval e s σ env p h) fun τ v _ _ => ?_
    rw [Value.isTrue_withDepths]
    exact .pure (f := id) trivial

/-- One turn of a loop: the condition, the body and the step. -/
private theorem Agrees.turn {condition step : Option Expr} {body : Stmt} {s₁ s₂ s₃ : Scopes} {σ : Tracked}
    (hc : Ready π σ env (Expr.nodesOption condition) (Expr.visitsOption condition s₁ p) s₁.stack p)
    (hs : Ready π σ env (Expr.nodesOption step) (Expr.visitsOption step s₂ p) s₂.stack p)
    (hb : Ready π σ env body.nodes (body.visits s₃ p) s₃.stack p) :
    Sim π (Run.Turn.withDepths π.depth) π.GoodTurn σ
      (Run.turn i env ((Expr.resolveOption condition).value s₁) ((Expr.resolveOption step).value s₂)
        (body.resolve.value s₃))
      (Run.turn j env (Expr.withDepthsOption π.depth ((Expr.resolveOption condition).value s₁))
        (Expr.withDepthsOption π.depth ((Expr.resolveOption step).value s₂))
        ((body.resolve.value s₃).withDepths π.depth)) := by
  refine .bind (hi.holds condition s₁ hc) fun τ c hg _ => ?_
  cases c with
  | false => exact .pure (f := Run.Turn.withDepths _) nofun
  | true =>
    refine .bind (hi.exec body s₃ τ env p (hb.part hg (List.Subset.refl _) (List.Subset.refl _) rfl))
      fun τ₁ r hg₁ hr => ?_
    cases r with
    | some v => exact .pure (f := Run.Turn.withDepths _) hr.good
    | none =>
      refine .bind (hi.evalOption step s₂ (hs.part (hg.trans hg₁) (List.Subset.refl _) (List.Subset.refl _) rfl))
        fun τ₂ _ _ _ => ?_
      exact .pure (f := Run.Turn.withDepths _) trivial

/-- All turns of a loop. -/
private theorem Agrees.loop {condition step : Option Expr} {body : Stmt} {s₁ s₂ s₃ : Scopes} {σ : Tracked}
    (hc : Ready π σ env (Expr.nodesOption condition) (Expr.visitsOption condition s₁ p) s₁.stack p)
    (hs : Ready π σ env (Expr.nodesOption step) (Expr.visitsOption step s₂ p) s₂.stack p)
    (hb : Ready π σ env body.nodes (body.visits s₃ p) s₃.stack p) :
    Sim π (Option.map (Value.withDepths π.depth)) (fun τ r => ∀ v ∈ r, π.Good τ v) σ
      (Run.loop (Run.turn i env ((Expr.resolveOption condition).value s₁)
        ((Expr.resolveOption step).value s₂) (body.resolve.value s₃)) loopBound)
      (Run.loop (Run.turn j env (Expr.withDepthsOption π.depth ((Expr.resolveOption condition).value s₁))
        (Expr.withDepthsOption π.depth ((Expr.resolveOption step).value s₂))
        ((body.resolve.value s₃).withDepths π.depth)) loopBound) := by
  refine sim_loop (fun τ hg => ?_) loopBound
  have hrefl := fun {α : Type} (l : List α) => List.Subset.refl l
  exact hi.turn (hc.part hg (hrefl _) (hrefl _) rfl) (hs.part hg (hrefl _) (hrefl _) rfl)
    (hb.part hg (hrefl _) (hrefl _) rfl)

private theorem Agrees.evalProperties (className : String) (l : List VarDecl) (s : Scopes) {σ : Tracked}
    {b : Bindings Value}
    (h : Ready π σ env (VarDecl.nodesList l) (VarDecl.visitsProperties className l s p) s.stack p)
    (hb : b.All (π.Good σ)) :
    Sim π (Bindings.mapAll (Value.withDepths π.depth)) (fun τ b => b.All (π.Good τ)) σ
      (Run.evalProperties i env ((VarDecl.resolveProperties className l).value s) b)
      (Run.evalProperties j env (VarDecl.withDepthsList π.depth ((VarDecl.resolveProperties className l).value s))
        (b.mapAll (Value.withDepths π.depth))) := by
  induction l generalizing s σ b with
  | nil => exact .pure (f := Bindings.mapAll _) hb
  | cons d rest ih =>
    obtain ⟨type, name, init⟩ := d
    let s₁ := (Resolve.updateClass className fun info =>
      { info with properties := info.properties ++ [name.text] }).next s
    have hrest : ∀ τ v, σ.Grows τ → π.Good τ v → Sim π (Bindings.mapAll (Value.withDepths π.depth))
        (fun τ b => b.All (π.Good τ)) τ
        (Run.evalProperties i env ((VarDecl.resolveProperties className rest).value
          ((Expr.resolveOption init).next s₁)) (b.put name.text v))
        (Run.evalProperties j env (VarDecl.withDepthsList π.depth ((VarDecl.resolveProperties className rest).value
          ((Expr.resolveOption init).next s₁))) ((b.mapAll (Value.withDepths π.depth)).put name.text
            (v.withDepths π.depth))) := by
      intro τ v hg hv
      rw [Bindings.put_mapAll]
      refine ih _ (h.right hg (Expr.stack_nextOption init s₁)) (Bindings.All.put (hb.mono fun _ hw => hw.mono hg) hv)
    cases init with
    | none =>
      have hvalue := hrest σ (Run.defaultValue type) (.refl σ) (π.plain_good σ _ (isPlain_defaultValue type))
      rw [withDepths_defaultValue] at hvalue
      exact hvalue
    | some e =>
      refine .bind (hi.eval e s₁ σ env p h.left) fun τ v hg hv => ?_
      exact hrest τ v hg hv

end Parts

/-! ### Statements -/

/-- The evaluators for a statement agree, wherever the analysis came to it. -/
def ExecAgrees (π : Plan) (i : Tracker) (j : Interp) (t : Stmt) : Prop :=
  ∀ (s : Scopes) (σ : Tracked) (env : Env) (p : List Opener), Ready π σ env t.nodes (t.visits s p) s.stack p →
    Sim π (Option.map (Value.withDepths π.depth)) (Done π env t) σ (Run.execStmt i env (t.resolve.value s))
      (Run.execStmt j env ((t.resolve.value s).withDepths π.depth))

section Statements

variable {i : Tracker} {j : Interp} (hi : Agrees π i j)

include hi

private theorem Agrees.block (body : List Stmt) : ExecAgrees π i j (.block body) := by
  intro s σ env p h
  let body' := (Stmt.resolveList body).value s.push
  have hframe : Sim π id (fun τ f => Fresh τ (.block body') ⟨[], none⟩ f) σ
      (Track.newFrame (.block body') ⟨[], none⟩) (Run.onStore (Store.newFrame ⟨[], none⟩)) :=
    .newFrame Bindings.all_nil fun _ => ⟨rfl, nofun⟩
  refine .bind hframe fun τ f hg hf => ?_
  have hready : Ready π τ (f :: env) (Stmt.nodesList body) (Stmt.visitsList body s.push (.block body' :: p))
      s.push.stack (.block body' :: p) :=
    ⟨.scope hf.globals hf.origin (fun _ => ⟨nofun, nofun⟩) (h.inside.chain.mono hg fun _ hx => hx), h.inside.known⟩
  exact (hi.execAll body s.push hready).weaken fun _ _ _ hr => .ofGood (fun _ => rfl) hr

open List in
private theorem Agrees.branch (condition : Expr) (yes : Stmt) (no : Option Stmt) :
    ExecAgrees π i j (.branch condition yes no) := by
  intro s σ env p h
  have hsimple := h.simple
  have h := h.inside
  have hnone : π.forgets = true → (Stmt.branch condition yes no).declared = [] := by
    intro hforgets
    obtain ⟨hyes, hno⟩ := hsimple hforgets
    exact append_eq_nil_iff.2 ⟨hyes, hno⟩
  refine .bind (hi.eval condition s σ env p h.left.left) fun τ c hg _ => ?_
  rw [Value.isTrue_withDepths]
  split
  · have hyes := hi.exec yes (condition.resolve.next s) τ env p (h.left.right hg (condition.stack_next s))
    exact hyes.weaken fun _ _ _ hr => .ofGood hnone hr.good
  · cases no with
    | none => exact .pure (f := Option.map _) (.ofGood hnone nofun)
    | some t =>
      have hs := yes.stack_next (condition.resolve.next s)
      have ht := hi.exec t (yes.resolve.next (condition.resolve.next s)) τ env p (h.declare hg
        (subset_append_right _ _) (subset_append_right _ _) (hs.trans (congrArg _ (condition.stack_next s)))
        fun hforgets f _ x hx => by rw [(hsimple hforgets).1] at hx; cases hx)
      exact ht.weaken fun _ _ _ hr => .ofGood hnone hr.good

private theorem Agrees.whileLoop (condition : Expr) (body : Stmt) : ExecAgrees π i j (.loop condition body) := by
  intro s σ env p h
  have hsimple := h.simple
  have h := h.inside
  have hcondition : Ready π σ env (Expr.nodesOption (some condition)) (Expr.visitsOption (some condition) s p)
      s.stack p := h.left
  have hstep : Ready π σ env (Expr.nodesOption none) (Expr.visitsOption none s p) s.stack p :=
    h.part (.refl σ) (List.nil_subset _) (List.nil_subset _) rfl
  have hloop := hi.loop hcondition hstep (h.right (.refl σ) (condition.stack_next s))
  exact hloop.weaken fun _ _ _ hr => .ofGood hsimple hr

open List in
private theorem Agrees.countLoop (init : Option Stmt) (condition step : Option Expr) (body : Stmt) :
    ExecAgrees π i j (.count init condition step body) := by
  intro s σ env p h
  have hsimple := h.simple
  obtain ⟨hstart, -⟩ := h.asParsed
  have h := h.inside
  let s₁ := (Stmt.resolveOption init).next s
  let s₂ := (Expr.resolveOption condition).next s₁
  let s₃ := (Expr.resolveOption step).next s₂
  have h₁ : s₁.stack = declareTop (Stmt.declaredOption init) s.stack := Stmt.stack_nextOption init s
  have h₂ : s₂.stack = _ := (Expr.stack_nextOption condition s₁).trans h₁
  have h₃ : s₃.stack = _ := (Expr.stack_nextOption step s₂).trans h₂
  have hloop : ∀ τ, σ.Grows τ →
      (π.forgets = true → ∀ f ∈ env.head?, ∀ x ∈ Stmt.declaredOption init, τ.Binds f x) →
      Sim π (Option.map (Value.withDepths π.depth)) (Done π env (.count init condition step body)) τ
        (Run.loop (Run.turn i env ((Expr.resolveOption condition).value s₁)
          ((Expr.resolveOption step).value s₂) (body.resolve.value s₃)) loopBound)
        (Run.loop (Run.turn j env (Expr.withDepthsOption π.depth ((Expr.resolveOption condition).value s₁))
          (Expr.withDepthsOption π.depth ((Expr.resolveOption step).value s₂))
          ((body.resolve.value s₃).withDepths π.depth)) loopBound) := by
    intro τ hg hbinds
    have hready := h.declare hg (Subset.refl _) (Subset.refl _) rfl fun hforgets f hf x hx _ =>
      hbinds hforgets f hf x hx
    refine (hi.loop (hready.left.left.right (.refl τ) h₁) (hready.left.right (.refl τ) h₂)
      (hready.right (.refl τ) h₃)).weaken fun υ r hg' hr => ⟨hr, fun hforgets _ f hf x hx => ?_⟩
    rcases mem_append.1 hx with hx | hx
    · exact hg'.binds (hbinds hforgets f hf x hx)
    · rw [show body.declared = [] from hsimple hforgets] at hx
      cases hx
  cases init with
  | none => exact hloop σ (.refl σ) fun _ _ _ => forall_mem_nil _
  | some t =>
    refine .bind (hi.exec t s σ env p h.left.left.left) fun τ r hg hr => ?_
    refine hloop τ hg fun hforgets f hf x hx => ?_
    rcases hstart t rfl with hdecl | ⟨e, rfl⟩
    · exact hr.binds hforgets (.inr hdecl) f hf x hx
    · cases hx

open List in
private theorem Agrees.varDecl (decl : VarDecl) : ExecAgrees π i j (.var decl) := by
  intro s σ env p h
  obtain ⟨type, name, init⟩ := decl
  let s' := (Resolve.declare name.text).next s
  have hinit : Ready π σ env (Expr.nodesOption init) (Expr.visitsOption init s' p) s'.stack p :=
    h.inside.declare (.refl σ) (Subset.refl _) (Subset.refl _) (stack_declare name.text s)
      fun hforgets f _ x hx hm => absurd (mem_singleton.1 hx ▸ hm) (h.simple hforgets)
  refine .bind (hi.evalOption init s' hinit) fun τ v hg hgood => .ofInv fun hτ => ?_
  obtain ⟨f, outer, o, rfl, ho, hnames⟩ := (h.grow hg).head hτ
  refine .bind (.define ho (fun hforgets => hnames _ (h.declares hforgets _ (mem_singleton_self _)))
    fun υ hg' _ => hgood.mono hg') fun υ _ _ hbinds => ?_
  exact .pure (f := Option.map _) (.ofBinds rfl hbinds)

omit hi in
open List in
/-- A function can be run in the frame that it is defined in. -/
private theorem execAgrees_function (decl : FunctionDecl) : ExecAgrees π i j (.function decl) := by
  intro s σ env p h
  obtain ⟨name, params, body, isStatic⟩ := decl
  refine .ofInv fun hσ => ?_
  obtain ⟨f, outer, o, rfl, ho, hnames⟩ := h.head hσ
  have hrunnable : ∀ τ, σ.Grows τ → (π.forgets = true → τ.Binds f name.text) → π.Runnable τ params
      ((Stmt.resolveList body).value (((Resolve.declare name.text).next s).enter params)) (f :: outer) := by
    intro τ hg hbinds
    have hready := h.inside.declare hg (Subset.refl _) (Subset.refl _) (stack_declare name.text s)
      fun hforgets k hk x hx _ => by rw [mem_singleton.1 hx, ← Option.some.inj hk]; exact hbinds hforgets
    exact ⟨body, _, p, rfl, hready.known, hready.chain⟩
  refine .bind (.define ho (fun hforgets => hnames _ (h.declares hforgets _ (mem_singleton_self _))) hrunnable)
    fun υ _ _ hbinds => ?_
  exact .pure (f := Option.map _) (.ofBinds rfl hbinds)

private theorem Agrees.print (value : Expr) : ExecAgrees π i j (.print value) := by
  intro s σ env p h
  refine .bind (hi.eval value s σ env p h.inside) fun τ v _ _ => ?_
  rw [Value.isNull_withDepths]
  split
  · refine .bind (.plain Run.tame_text) fun τ₁ text _ _ => ?_
    refine .bind (.plain (.modify (fun _ => rfl) (fun _ => rfl) fun _ hm => hm)) fun τ₂ _ _ _ => ?_
    exact .pure (f := Option.map _) (.ofGood (fun _ => rfl) nofun)
  · exact .pure (f := Option.map _) (.ofGood (fun _ => rfl) nofun)

omit hi in
/-- The classes above a new class are found alike. -/
private theorem Ready.lineageOf {s : Scopes} {superclass : Option Ref}
    (h : Ready π σ env (superclass.toList.map fun ref => .expr (.variable ref))
      (superclass.toList.map fun ref => ⟨.expr (.variable ref), .expr ((Expr.variable ref).resolve.value s), s, p⟩)
      s.stack p) (name : Name) :
    Sim π id (fun _ _ => True) σ (Run.lineageOf env name.text ((resolveSuperclass name superclass).value s))
      (Run.lineageOf env name.text (((resolveSuperclass name superclass).value s).map (Ref.withDepths π.depth))) := by
  cases superclass with
  | none => exact .pure (f := id) trivial
  | some ref =>
    have hv := h.known _ (List.mem_singleton_self _)
    have hread := h.reference .variable (fun _ => rfl) (π.asParsed _ hv) hv ⟨_, List.mem_cons_self, rfl⟩
    have hbind := Sim.bind hread fun τ v _ _ => .plain (Run.tame_superclassOf name.text)
    rwa [bind_assoc] at hbind

/-- The name of a new class is bound to null, and then the class is made with its properties. -/
private theorem Agrees.defineClass (hforgets : π.forgets = false) (name : Name) (properties : List VarDecl)
    {s : Scopes}
    (h : Ready π σ env (VarDecl.nodesList properties) (VarDecl.visitsProperties name.text properties s p) s.stack p)
    (lineage : List ClassId) :
    Sim π id (fun _ _ => True) σ
      (Run.defineClass i env name.text ((VarDecl.resolveProperties name.text properties).value s) lineage)
      (Run.defineClass j env name.text
        (VarDecl.withDepthsList π.depth ((VarDecl.resolveProperties name.text properties).value s)) lineage) := by
  refine .ofInv fun hσ => ?_
  obtain ⟨f, outer, o, rfl, ho, -⟩ := h.head hσ
  refine .bind (.define (v := .null) ho (fun h => absurd (h.symm.trans hforgets) nofun) fun _ _ _ => trivial)
    fun τ _ hg _ => ?_
  exact .bind (hi.evalProperties name.text properties s (h.grow hg) Bindings.all_nil) fun υ _ _ hinitial =>
    sim_makeClass hinitial

open List in
private theorem Agrees.classDef (name : Name) (superclass : Option Ref) (methods : List FunctionDecl)
    (properties : List VarDecl) : ExecAgrees π i j (.classDef name superclass methods properties) := by
  intro s σ env p h
  have hforgets : π.forgets = false := eq_false_of_ne_true h.simple
  let s₁ := (Resolve.declare name.text).next s
  have hs : ((resolveSuperclass name superclass).next s₁).stack = s₁.stack :=
    stack_resolveSuperclass name superclass s₁
  have h : Ready π σ env _ _ s₁.stack p :=
    h.inside.declare (.refl σ) (Subset.refl _) (Subset.refl _) (stack_declare name.text s)
      fun h => absurd (h.symm.trans hforgets) nofun
  have hlineage := (h.part (.refl σ) (subset_append_left _ _) (subset_append_left _ _) rfl).lineageOf name
  rw [Stmt.resolve_classDef]
  change Sim π _ _ σ (Run.execStmt i env (.classDef name ((resolveSuperclass name superclass).value s₁) methods _))
    (Run.execStmt j env (.classDef name _ methods _))
  refine .bind hlineage fun τ lineage hg _ => ?_
  have hproperties := h.part hg (Subset.trans (subset_append_right _ _) (subset_append_right _ _))
    (subset_append_right _ _) hs
  refine .bind (hi.defineClass hforgets name properties hproperties lineage) fun υ _ _ _ => ?_
  exact .pure (f := Option.map _) (.ofGood (fun h => absurd (h.symm.trans hforgets) nofun) nofun)

omit hi in
open List in
/-- The methods of a class can be run in the frame of its implementation. -/
private theorem execAgrees_classImpl (name : Name) (methods : List FunctionDecl) :
    ExecAgrees π i j (.classImpl name methods) := by
  intro s σ env p h
  have hforgets : π.forgets = false := eq_false_of_ne_true h.simple
  have hs := stack_declareAll ("self" :: "super" :: (s.implemented name methods).classes.members name.text)
    (s.implemented name methods).push
  refine .bind (sim_implement (goodMethod_of_visits hforgets h.inside.chain methods (Subset.refl _)
    (s.enterMembers name methods) hs h.inside.known)) fun τ _ _ _ => ?_
  exact .pure (f := Option.map _) (.ofGood (fun h => absurd (h.symm.trans hforgets) nofun) nofun)

private theorem Agrees.execStmt (t : Stmt) : ExecAgrees π i j t := by
  cases t with
  | block body => exact hi.block body
  | branch condition yes no => exact hi.branch condition yes no
  | loop condition body => exact hi.whileLoop condition body
  | count init condition step body => exact hi.countLoop init condition step body
  | result value =>
    intro s σ env p h
    refine .bind (hi.evalOption value s h.inside) fun τ v _ hv => ?_
    exact .pure (f := Option.map _) (.ofGood (fun _ => rfl) fun w hw => Option.some.inj hw ▸ hv)
  | expr e =>
    intro s σ env p h
    refine .bind (hi.eval e s σ env p h.inside) fun τ v _ _ => ?_
    exact .pure (f := Option.map _) (.ofGood (fun _ => rfl) nofun)
  | var decl => exact hi.varDecl decl
  | function decl => exact execAgrees_function decl
  | print value => exact hi.print value
  | classDef name superclass methods properties => exact hi.classDef name superclass methods properties
  | classImpl name methods => exact execAgrees_classImpl name methods
  | typeDef name type =>
    intro s σ env p h
    exact .pure (f := Option.map _) (.ofGood (fun _ => rfl) nofun)

/-- A program stops at the first result. -/
private theorem Agrees.program (l : List Stmt) (s : Scopes) {σ : Tracked}
    (h : Ready π σ env (Stmt.nodesList l) (Stmt.visitsList l s p) s.stack p) :
    Sim π id (fun _ _ => True) σ (Run.program i env ((Stmt.resolveList l).value s))
      (Run.program j env (Stmt.withDepthsList π.depth ((Stmt.resolveList l).value s))) := by
  induction l generalizing s σ with
  | nil => exact .pure (f := id) trivial
  | cons t rest ih =>
    refine .bind (hi.exec t s σ env p h.left) fun τ r hg hr => ?_
    cases r with
    | some v => exact .throw _
    | none =>
      refine ih (t.resolve.next s) (h.declare hg (List.subset_append_right _ _) (List.subset_append_right _ _)
        (t.stack_next s) fun hforgets f hf x hx _ => ?_)
      exact hr.binds hforgets (.inl rfl) f hf x hx

end Statements

/-- The evaluators agree, however deep nodes may be nested. -/
private theorem agrees_interp (π : Plan) (n : Nat) : Agrees π (tracker n) (interp n) := by
  induction n with
  | zero => exact ⟨fun _ _ _ _ _ _ => .throw _, fun _ _ _ _ _ _ => .throw _⟩
  | succ n ih => exact ⟨ih.evalExpr, ih.execStmt⟩

/-- Before a program no frame but that of the built-in names binds a name. -/
private theorem Store.frame_initial {f : FrameId} (hf : f ≠ .globals) : Store.initial.frame f = ⟨[], none⟩ := by
  obtain ⟨i⟩ := f
  match i with
  | 0 => exact absurd rfl hf
  | 1 => rfl
  | _ + 2 => rfl

/-- The invariant holds before a program. -/
theorem Plan.inv_initial (π : Plan) (input : List String) (clock : Nat → Float) (threshold : Nat) :
    π.Inv (.initial (.initial input clock threshold)) := by
  refine ⟨rfl, rfl, rfl, Store.holds_initial (fun _ _ => trivial) trivial trivial, List.forall_mem_nil _,
    fun _ f => ?_,
    fun _ f x hf hx => ?_⟩
  · change (Store.initial.frame f).receiver = none
    by_cases hf : f = .globals
    · rw [hf]
      rfl
    · rw [Store.frame_initial hf]
  · change (Store.initial.frame f).bindings.has x = true at hx
    rw [Store.frame_initial hf] at hx
    cases hx

/-- A failure is noted without a change of the store. -/
private theorem Plan.Inv.noteFault (hσ : π.Inv σ) (f : Fault) : π.Inv { σ with machine := σ.machine.noteFault f } :=
  hσ.ofStore (.ofFrames rfl rfl) rfl rfl hσ.store hσ.sightings

/-- A program that the analysis went through runs alike with its notes and without them, up to the depths of
the plan, and it keeps the invariant whether it fails or not. -/
theorem Plan.Inv.interpret (hσ : π.Inv σ) {stmts : List Stmt} {s : Scopes} {names : Names}
    (hs : s.stack = [names]) (hnames : π.forgets = true → names = [])
    (hv : ∀ v ∈ Stmt.visitsList stmts s [.program], π.known v) :
    ∃ r τ, σ.interpret ((Stmt.resolveList stmts).value s) = (r, τ) ∧
      (σ.machine.withDepths π.depth).interpret (Stmt.withDepthsList π.depth ((Stmt.resolveList stmts).value s)) =
        (r, τ.machine.withDepths π.depth) ∧ π.Inv τ := by
  have hready : Ready π σ Env.top (Stmt.nodesList stmts) (Stmt.visitsList stmts s [.program]) s.stack [.program] := by
    refine ⟨?_, hv⟩
    rw [hs]
    refine .scope nofun hσ.program (fun hforgets => ⟨nofun, fun x hx => ?_⟩) .globals
    rw [hnames hforgets] at hx
    cases hx
  obtain ⟨r, τ, ht, hu, hτ, -⟩ := (agrees_interp π depthLimit).program stmts s hready hσ
  unfold Track.result at ht
  unfold Run.result at hu
  unfold Tracked.interpret Machine.interpret
  rw [ht, hu]
  cases r with
  | ok _ => exact ⟨.ok (), τ, rfl, rfl, hτ⟩
  | error e =>
    cases e with
    | fault f => exact ⟨.ok (), _, rfl, rfl, hτ.noteFault f⟩
    | badNumeral b => exact ⟨.error (.badNumeral b), τ, rfl, rfl, hτ⟩
    | unfinished => exact ⟨.error .unfinished, τ, rfl, rfl, hτ⟩

end ObjScript
