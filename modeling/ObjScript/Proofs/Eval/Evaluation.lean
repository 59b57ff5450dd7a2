import ObjScript.Proofs.Eval.Classes

/-!
# Evaluation follows the analysis

A tracker and an interpreter agree (`Agrees`) if every node that the analysis came to is evaluated alike by
both, in a chain of frames that follows the scopes of the analysis.  The evaluators for an expression agree
if those for its parts do (`Agrees.evalExpr`).
-/

namespace ObjScript

variable {π : Plan} {σ τ : Tracked} {env : Env} {nodes nodes' : List Node} {visits visits' : List Visit}
  {stack stack' : List Names} {p : List Opener}

/-- A part of a program can be evaluated: the analysis came to its nodes, and the frames follow the scopes. -/
structure Ready (π : Plan) (σ : Tracked) (env : Env) (nodes : List Node) (visits : List Visit)
    (stack : List Names) (p : List Opener) : Prop where
  chain : Chain π σ (Mentioned nodes) env stack p
  known : ∀ v ∈ visits, π.known v

/-- A smaller part, later in the run. -/
theorem Ready.part (h : Ready π σ env nodes visits stack p) (hg : σ.Grows τ) (hn : nodes' ⊆ nodes)
    (hv : visits' ⊆ visits) (hs : stack' = stack) : Ready π τ env nodes' visits' stack' p := by
  rw [hs]
  exact ⟨h.chain.mono hg fun _ hx => hx.mono hn, fun v hv' => h.known v (hv hv')⟩

/-- The same part, later in the run. -/
theorem Ready.grow (h : Ready π σ env nodes visits stack p) (hg : σ.Grows τ) : Ready π τ env nodes visits stack p :=
  h.part hg (List.Subset.refl _) (List.Subset.refl _) rfl

/-- The parts of a node. -/
private theorem Ready.below {n : Node} (h : Ready π σ env (n :: nodes) visits stack p) :
    Ready π σ env nodes visits stack p :=
  h.part (.refl σ) (List.subset_cons_self _ _) (List.Subset.refl _) rfl

/-- The part that comes first. -/
theorem Ready.left (h : Ready π σ env (nodes ++ nodes') (visits ++ visits') stack p) :
    Ready π σ env nodes visits stack p :=
  h.part (.refl σ) (List.subset_append_left _ _) (List.subset_append_left _ _) rfl

/-- The part that comes last, when the first has been run and the scopes are as before. -/
theorem Ready.right (h : Ready π σ env (nodes ++ nodes') (visits ++ visits') stack p) (hg : σ.Grows τ)
    (hs : stack' = stack) : Ready π τ env nodes' visits' stack' p :=
  h.part hg (List.subset_append_right _ _) (List.subset_append_right _ _) hs

/-- A smaller part, after names have been declared in the innermost frame. -/
theorem Ready.declare (h : Ready π σ env nodes visits stack p) (hg : σ.Grows τ) (hn : nodes' ⊆ nodes)
    (hv : visits' ⊆ visits) {names : List String} (hs : stack' = declareTop names stack)
    (hnames : π.forgets = true → ∀ f ∈ env.head?, ∀ x ∈ names, Mentioned nodes' x → τ.Binds f x) :
    Ready π τ env nodes' visits' stack' p := by
  have h' := h.part hg hn hv rfl
  rw [hs]
  exact ⟨h'.chain.declare hnames, h'.known⟩

/-- The reference is met with what is known about the scopes there. -/
private theorem Ready.met (h : Ready π σ env nodes visits stack p) {v : Visit} {x : String} (hv : π.known v)
    (hstack : v.scopes.stack = stack) (hpath : v.path = p) (hx : Mentioned nodes x) : Met π σ env stack p x := by
  refine ⟨h.chain.mono (.refl σ) fun y hy => hy ▸ hx, fun hforgets => ?_⟩
  have hplaced := π.apart hforgets v hv
  rw [← hstack, ← hpath]
  exact ⟨hplaced.stack, by simpa using hplaced.apart⟩

/-- A reference, as the analysis leaves it, is noted and read. -/
theorem Ready.reference {s : Scopes} (h : Ready π σ env nodes visits s.stack p) {kind : RefKind} {ref : Ref}
    {node : Node} (make : Ref → Expr) (hmake : ∀ r, (make r).depth? = r.depth) (hparsed : ref.depth = none)
    (hv : π.known ⟨node, .expr (make ((Resolve.reference kind ref).value s)), s, p⟩)
    (hx : Mentioned nodes ref.name.text) :
    Sim π (Value.withDepths π.depth) π.Good σ
      (Track.sight env (make ((Resolve.reference kind ref).value s)) >>= fun _ =>
        Track.binding (Run.read env ((Resolve.reference kind ref).value s)))
      (Run.read env (((Resolve.reference kind ref).value s).withDepths π.depth)) := by
  have hvalue := value_reference kind ref s hparsed
  obtain ⟨frames, ha⟩ := h.chain.aligned (x := ref.name.text) (v := ⟨node, _, s, p⟩) rfl
    ((hmake _).trans (congrArg Ref.depth hvalue))
  refine .sight hv ha fun τ hg => ?_
  rw [hvalue]
  exact .read ((h.grow hg).met hv rfl rfl hx)

/-- The frame in which names are declared. -/
theorem Ready.head (hσ : π.Inv σ) (h : Ready π σ env nodes visits stack p) :
    ∃ f outer o, env = f :: outer ∧ σ.origins[f.index]? = some o ∧
      ∀ x ∈ innermostNames π.top p, x ∈ o.names π.top := by
  cases h.chain with
  | globals => exact ⟨.globals, [], .builtins, rfl, hσ.builtins, List.forall_mem_nil _⟩
  | @scope f o _ outer _ _ _ ho _ _ => exact ⟨f, outer, o, rfl, ho, fun _ hx => hx⟩

/-- What has happened after a statement: its result is sound, and without a result its names are bound. -/
structure Done (π : Plan) (env : Env) (t : Stmt) (τ : Tracked) (result : Option Value) : Prop where
  good : ∀ v ∈ result, π.Good τ v
  binds : π.forgets = true → result = none ∨ t.isDeclaration = true → ∀ f ∈ env.head?, ∀ x ∈ t.declared, τ.Binds f x

/-- The evaluators agree on all nodes that the analysis came to. -/
structure Agrees (π : Plan) (i : Tracker) (j : Interp) : Prop where
  eval : ∀ (e : Expr) (s : Scopes) (σ : Tracked) (env : Env) (p : List Opener),
    Ready π σ env e.nodes (e.visits s p) s.stack p →
    Sim π (Value.withDepths π.depth) π.Good σ (i.eval env (e.resolve.value s))
      (j.eval env ((e.resolve.value s).withDepths π.depth))
  exec : ∀ (t : Stmt) (s : Scopes) (σ : Tracked) (env : Env) (p : List Opener),
    Ready π σ env t.nodes (t.visits s p) s.stack p →
    Sim π (Option.map (Value.withDepths π.depth)) (Done π env t) σ (i.exec env (t.resolve.value s))
      (j.exec env ((t.resolve.value s).withDepths π.depth))

/-! ### Calls -/

theorem all_bindParams {P : Value → Prop} (hnull : P .null) (params : List Param) {args : List Value}
    {b : Bindings Value} (hargs : ∀ v ∈ args, P v) (hb : b.All P) : (Run.bindParams params args b).All P := by
  induction params generalizing args b with
  | nil => exact hb
  | cons q params ih =>
    cases args with
    | nil => exact ih hargs (hb.put hnull)
    | cons v args =>
      obtain ⟨hv, hargs⟩ := List.forall_mem_cons.1 hargs
      exact ih hargs (hb.put hv)

/-- Exactly the parameters are bound, apart from what was bound before. -/
theorem has_bindParams (params : List Param) (args : List Value) (b : Bindings Value) (x : String) :
    (Run.bindParams params args b).has x = true ↔ x ∈ paramNames params ∨ b.has x = true := by
  induction params generalizing args b with
  | nil => exact ⟨.inr, fun h => h.resolve_left List.not_mem_nil⟩
  | cons q params ih =>
    have hcons : ∀ (rest : List Value) (v : Value),
        (Run.bindParams params rest (b.put q.name.text v)).has x = true ↔
          x ∈ paramNames (q :: params) ∨ b.has x = true := by
      intro rest v
      rw [ih, Bindings.has_put, ← or_assoc, paramNames, paramNames, List.map_cons, List.mem_cons,
        or_comm (a := x = q.name.text)]
    cases args with
    | nil => exact hcons [] .null
    | cons v args => exact hcons args v

private theorem bindParams_withDepths {g : Option Nat → Option Nat} (params : List Param) (args : List Value)
    (b : Bindings Value) :
    Run.bindParams params (args.map (Value.withDepths g)) (b.mapAll (Value.withDepths g)) =
      (Run.bindParams params args b).mapAll (Value.withDepths g) :=
  Run.bindParams_recoded (r := .depths g) rfl args b

/-- Of a compound assignment the old value is read as well. -/
private theorem sim_assigned {op : AssignOp} {pos : Pos} {t : Track Value} {u : Run Value} {v : Value}
    (h : Sim π (Value.withDepths π.depth) π.Good σ t u) (hv : π.Good σ v) :
    Sim π (Value.withDepths π.depth) π.Good σ (Run.assigned op pos t v)
      (Run.assigned op pos u (v.withDepths π.depth)) := by
  unfold Run.assigned
  split
  · exact .bind h fun τ old _ _ => .plainValue (Run.tame_add (π.plain_good τ))
  · exact .pure hv

private theorem isSuper_withDepths {g : Option Nat → Option Nat} (e : Expr) :
    Run.isSuper (e.withDepths g) = Run.isSuper e := by
  cases e <;> rfl

private theorem filter_withDepths {g : Option Nat → Option Nat} (vs : List Value) :
    ((vs.map (Value.withDepths g)).filter fun v => !v.isNull).toArray =
      (vs.filter fun v => !v.isNull).toArray.map (Value.withDepths g) := by
  rw [List.filter_map, List.map_toArray]
  congr 2
  refine List.filter_congr fun v _ => ?_
  exact congrArg (! ·) (Value.isNull_withDepths v)

section Parts

variable {i : Tracker} {j : Interp} (hi : Agrees π i j)

include hi

private theorem Agrees.evalAll (l : List Expr) (s : Scopes) {σ : Tracked}
    (h : Ready π σ env (Expr.nodesList l) (Expr.visitsList l s p) s.stack p) :
    Sim π (List.map (Value.withDepths π.depth)) (fun τ vs => ∀ v ∈ vs, π.Good τ v) σ
      (Run.evalAll i env ((Expr.resolveList l).value s))
      (Run.evalAll j env (Expr.withDepthsList π.depth ((Expr.resolveList l).value s))) := by
  induction l generalizing s σ with
  | nil => exact .pure (f := List.map _) (List.forall_mem_nil _)
  | cons e rest ih =>
    refine .bind (hi.eval e s σ env p h.left) fun τ v hg hv => ?_
    refine .bind (ih (e.resolve.next s) (h.right hg (e.stack_next s))) fun υ vs hg' hvs => ?_
    exact .pure (f := List.map _) (List.forall_mem_cons.2 ⟨hv.mono hg', hvs⟩)

theorem Agrees.evalOption (o : Option Expr) (s : Scopes) {σ : Tracked}
    (h : Ready π σ env (Expr.nodesOption o) (Expr.visitsOption o s p) s.stack p) :
    Sim π (Value.withDepths π.depth) π.Good σ (Run.evalOption i env ((Expr.resolveOption o).value s))
      (Run.evalOption j env (Expr.withDepthsOption π.depth ((Expr.resolveOption o).value s))) := by
  cases o with
  | none => exact .pure (f := Value.withDepths _) trivial
  | some e => exact hi.eval e s σ env p h

/-- The statements of a list are executed one after the other, each in the frames that the ones before have
left. -/
theorem Agrees.execAll (l : List Stmt) (s : Scopes) {σ : Tracked}
    (h : Ready π σ env (Stmt.nodesList l) (Stmt.visitsList l s p) s.stack p) :
    Sim π (Option.map (Value.withDepths π.depth)) (fun τ r => ∀ v ∈ r, π.Good τ v) σ
      (Run.execAll i env ((Stmt.resolveList l).value s))
      (Run.execAll j env (Stmt.withDepthsList π.depth ((Stmt.resolveList l).value s))) := by
  induction l generalizing s σ with
  | nil => exact .pure (f := Option.map _) nofun
  | cons t rest ih =>
    refine .bind (hi.exec t s σ env p h.left) fun τ r hg hr => ?_
    cases r with
    | some v => exact .pure (f := Option.map _) hr.good
    | none =>
      refine ih (t.resolve.next s) (h.declare hg (List.subset_append_right _ _) (List.subset_append_right _ _)
        (t.stack_next s) fun hforgets f hf x hx _ => ?_)
      exact hr.binds hforgets (.inl rfl) f hf x hx

/-- The body of a function runs in a new frame with its parameters. -/
private theorem Agrees.invoke {params : List Param} {body : List Stmt} {args : List Value}
    (h : π.Runnable σ params body env) (hargs : ∀ v ∈ args, π.Good σ v) :
    Sim π (Value.withDepths π.depth) π.Good σ (Run.invoke i params body env args)
      (Run.invoke j params (Stmt.withDepthsList π.depth body) env (args.map (Value.withDepths π.depth))) := by
  obtain ⟨stmts, s, p, rfl, hvisits, hchain⟩ := h
  let body := (Stmt.resolveList stmts).value (s.enter params)
  let new : Frame := ⟨Run.bindParams params args [], none⟩
  have hhas : ∀ x, new.bindings.has x = true ↔ x ∈ paramNames params := by
    intro x
    rw [has_bindParams]
    exact ⟨fun h => h.resolve_right nofun, .inl⟩
  have hview : new.withDepths π.depth = ⟨Run.bindParams params (args.map (Value.withDepths π.depth)) [], none⟩ :=
    congrArg (Frame.mk · none) (bindParams_withDepths params args []).symm
  have hnew : new.bindings.All (π.Good σ) := all_bindParams trivial params hargs Bindings.all_nil
  have hframe := Sim.newFrame (o := .body params body) hnew
    fun _ => ⟨rfl, fun x hx => List.mem_append_left _ ((hhas x).1 hx)⟩
  rw [hview] at hframe
  refine .bind hframe fun τ f hg hf => ?_
  have hready : Ready π τ (f :: env) (Stmt.nodesList stmts) (Stmt.visitsList stmts (s.enter params)
      (.body params body :: p)) (s.enter params).stack (.body params body :: p) := by
    refine ⟨?_, hvisits⟩
    rw [stack_enter]
    refine .scope hf.globals hf.origin (fun _ => ⟨nofun, fun x hx _ => hf.binds x ((hhas x).2 ?_)⟩)
      (hchain.mono hg fun _ hx => hx)
    exact (Names.mem_addAll.1 hx).resolve_left List.not_mem_nil
  refine .bind (hi.execAll stmts (s.enter params) hready) fun υ r _ hr => ?_
  cases r with
  | none => exact .pure (f := Value.withDepths _) trivial
  | some v => exact .pure (f := Value.withDepths _) (hr v rfl)

private theorem Agrees.call {callee : Value} {args : List Value} (h : π.Good σ callee)
    (hargs : ∀ v ∈ args, π.Good σ v) :
    Sim π (Value.withDepths π.depth) π.Good σ (Run.call i callee args)
      (Run.call j (callee.withDepths π.depth) (args.map (Value.withDepths π.depth))) := by
  have hignored : ∀ v : Value, Sim π (Value.withDepths π.depth) π.Good σ
      (Track.plain (Run.debug .calls do return "call of non-callable " ++ (← Run.text v) ++ " ignored") >>= fun _ =>
        pure .null)
      (Run.debug .calls (do return "call of non-callable " ++ (← Run.text (v.withDepths π.depth)) ++ " ignored") >>=
        fun _ => pure .null) := by
    intro v
    refine .bind (.plain (Run.tame_debug ?_)) fun τ _ _ _ => .pure (f := Value.withDepths _) trivial
    exact .bind Run.tame_text fun _ _ => .pure trivial
  cases callee with
  | function f =>
    have hinvoke := hi.invoke h hargs
    change Sim π _ _ σ _ (Run.invoke j (f.decl.withDepths π.depth).params (f.decl.withDepths π.depth).body f.env _)
    rw [FunctionDecl.withDepths_params, FunctionDecl.withDepths_body]
    exact hinvoke
  | block b => exact hi.invoke h hargs
  | native n => exact .plainValue (Run.tame_native (π.plain_good σ))
  | classRef c => exact .plainValue (Run.tame_allocate (π.plain_good σ) c)
  | builtin b => exact .plainValue (Run.tame_builtin (π.plain_good σ))
  | null | number _ | string _ | bool _ | array _ | object _ => exact hignored _

end Parts

/-! ### Expressions -/

/-- The evaluators for an expression agree, wherever the analysis came to it. -/
def EvalAgrees (π : Plan) (i : Tracker) (j : Interp) (e : Expr) : Prop :=
  ∀ (s : Scopes) (σ : Tracked) (env : Env) (p : List Opener), Ready π σ env e.nodes (e.visits s p) s.stack p →
    Sim π (Value.withDepths π.depth) π.Good σ (Run.evalExpr i env (e.resolve.value s))
      (Run.evalExpr j env ((e.resolve.value s).withDepths π.depth))

section Expressions

variable {i : Tracker} {j : Interp} (hi : Agrees π i j)

include hi

open List in
/-- The reference is noted before the value is evaluated, and the binding is found after it. -/
private theorem Agrees.assign (target : Ref) (op : AssignOp) (pos : Pos) (value : Expr) :
    EvalAgrees π i j (.assign target op pos value) := by
  intro s σ env p h
  have hv := h.known _ (mem_append_right _ (mem_singleton_self _))
  have hstack := value.stack_next s
  have htarget : (Resolve.reference .assign target).value (value.resolve.next s) =
      ⟨target.name, Resolve.depth? s.stack target.name.text⟩ := by
    rw [value_reference .assign target _ (π.asParsed _ hv), hstack]
  have hresolved : (Expr.assign target op pos value).resolve.value s =
      .assign ⟨target.name, Resolve.depth? s.stack target.name.text⟩ op pos (value.resolve.value s) :=
    congrArg (Expr.assign · op pos (value.resolve.value s)) htarget
  have hchain := h.chain
  rw [← hstack] at hchain
  have hx : Mentioned (Expr.assign target op pos value).nodes target.name.text := ⟨_, mem_cons_self, rfl⟩
  obtain ⟨frames, ha⟩ := hchain.aligned (x := target.name.text) (v := ⟨_, _, value.resolve.next s, p⟩)
    (congrArg Node.expr hresolved) (by rw [hstack]; rfl)
  rw [hresolved]
  refine .sight hv ha fun τ hg => ?_
  refine .bind (hi.eval value s τ env p (h.part hg (subset_cons_self _ _) (subset_append_left _ _) rfl))
    fun τ₁ v hg₁ hgood => ?_
  have hmet : ∀ υ, τ₁.Grows υ → Met π υ env s.stack p target.name.text := fun υ hg' =>
    (h.grow ((hg.trans hg₁).trans hg')).met hv hstack rfl hx
  refine .bind (sim_assigned (.read (hmet τ₁ (.refl τ₁))) hgood) fun τ₂ v' hg₂ hgood' => ?_
  exact .bind (.assign (hmet τ₂ hg₂) hgood') fun τ₃ _ hg₃ _ => .pure (hgood'.mono hg₃)

open List in
private theorem Agrees.setIndex (object place : Expr) (op : AssignOp) (pos : Pos) (value : Expr) :
    EvalAgrees π i j (.setIndex object place op pos value) := by
  intro s σ env p h
  have h := h.below
  refine .bind (hi.eval object (value.resolve.next s) σ env p (h.part (.refl σ)
    (List.Subset.trans (subset_append_left _ _) (subset_append_left _ _))
    (List.Subset.trans (subset_append_right _ _) (subset_append_left _ _)) (value.stack_next s))) fun τ o hg _ => ?_
  cases o with
  | array a =>
    refine .bind (hi.eval place (object.resolve.next (value.resolve.next s)) τ env p (h.part hg
      (List.Subset.trans (subset_append_right _ _) (subset_append_left _ _)) (subset_append_right _ _)
      ((object.stack_next _).trans (value.stack_next s)))) fun τ₁ q hg₁ _ => ?_
    refine .bind (hi.eval value s τ₁ env p (h.part (hg.trans hg₁) (subset_append_right _ _)
      (List.Subset.trans (subset_append_left _ _) (subset_append_left _ _)) rfl)) fun τ₂ v _ hv => ?_
    refine .bind (sim_assigned (.plainValue (Run.tame_element (v := .array a) (π.plain_good τ₂))) hv)
      fun τ₃ v' _ hv' => ?_
    exact .bind (.plain (Run.tame_setElement hv')) fun τ₄ _ hg₄ _ => .pure (hv'.mono hg₄)
  | _ => exact .pure (f := Value.withDepths _) trivial

open List in
private theorem Agrees.setMember (object : Expr) (name : Name) (op : AssignOp) (pos : Pos) (value : Expr) :
    EvalAgrees π i j (.set object name op pos value) := by
  intro s σ env p h
  have h := h.below
  refine .bind (hi.eval object (value.resolve.next s) σ env p (h.part (.refl σ) (subset_append_left _ _)
    (subset_append_right _ _) (value.stack_next s))) fun τ o hg _ => ?_
  cases o with
  | object o =>
    refine .bind (hi.eval value s τ env p (h.part hg (subset_append_right _ _) (subset_append_left _ _) rfl))
      fun τ₁ v _ hv => ?_
    have hold := Sim.binding fun hσ : π.Inv τ₁ =>
      mayBind_instanceMember (g := π.depth) (π.plain_good τ₁) hσ.store o name.text
    refine .bind (sim_assigned hold hv) fun τ₂ v' _ hv' => ?_
    exact .bind (.plain (Run.tame_putProperty hv')) fun τ₃ _ hg₃ _ => .pure (hv'.mono hg₃)
  | _ => exact .pure (f := Value.withDepths _) trivial

open List in
theorem Agrees.evalExpr (e : Expr) : EvalAgrees π i j e := by
  intro s σ env p h
  cases e with
  | literal value => cases value <;> exact .pure (f := Value.withDepths _) trivial
  | «variable» ref =>
    have hv := h.known _ (mem_singleton_self _)
    exact h.reference .variable (fun _ => rfl) (π.asParsed _ hv) hv ⟨_, mem_cons_self, rfl⟩
  | selfRef ref =>
    have hv := h.known _ (mem_singleton_self _)
    exact h.reference .selfRef (fun _ => rfl) (π.asParsed _ hv) hv ⟨_, mem_cons_self, rfl⟩
  | superRef ref =>
    have hv := h.known _ (mem_singleton_self _)
    exact h.reference .superRef (fun _ => rfl) (π.asParsed _ hv) hv ⟨_, mem_cons_self, rfl⟩
  | grouping inner => exact hi.eval inner s σ env p h.below
  | unary op pos operand =>
    refine .bind (hi.eval operand s σ env p h.below) fun τ v hg hv => ?_
    exact .plainValue (Run.tame_unary (π.plain_good τ))
  | binary left op pos right =>
    have h := h.below
    refine .bind (hi.eval left s σ env p h.left) fun τ l hg _ => ?_
    refine .bind (hi.eval right (left.resolve.next s) τ env p (h.right hg (left.stack_next s))) fun υ r _ _ => ?_
    exact .plainValue (Run.tame_binary (π.plain_good υ))
  | logical left op right =>
    have h := h.below
    refine .bind (hi.eval left s σ env p h.left) fun τ l hg _ => ?_
    have hright : Sim π (Value.withDepths π.depth) π.Good τ
        (i.eval env (right.resolve.value (left.resolve.next s)) >>= fun v => pure (.bool v.isTrue))
        (j.eval env ((right.resolve.value (left.resolve.next s)).withDepths π.depth) >>= fun v =>
          pure (.bool v.isTrue)) := by
      refine .bind (hi.eval right (left.resolve.next s) τ env p (h.right hg (left.stack_next s))) fun υ r _ _ => ?_
      rw [Value.isTrue_withDepths]
      exact .pure (f := Value.withDepths _) trivial
    dsimp only
    rw [Value.isTrue_withDepths]
    cases op <;> cases l.isTrue
    · exact hright
    · exact .pure (f := Value.withDepths _) trivial
    · exact .pure (f := Value.withDepths _) trivial
    · exact hright
  | ternary condition yes no =>
    have h := h.below
    refine .bind (hi.eval condition s σ env p h.left.left) fun τ c hg _ => ?_
    rw [Value.isTrue_withDepths]
    split
    · exact hi.eval yes (condition.resolve.next s) τ env p (h.left.right hg (condition.stack_next s))
    · exact hi.eval no (yes.resolve.next (condition.resolve.next s)) τ env p (h.right hg
        ((yes.stack_next _).trans (condition.stack_next s)))
  | assign target op pos value => exact hi.assign target op pos value s σ env p h
  | array items =>
    refine .bind (hi.evalAll items s h.below) fun τ vs _ hvs => ?_
    dsimp only
    rw [filter_withDepths]
    refine .bind (.plain (Run.tame_newArray fun v hv => ?_)) fun υ a _ _ => .pure (f := Value.withDepths _) trivial
    exact hvs v (List.mem_of_mem_filter (List.mem_toArray.1 hv))
  | index object place =>
    have h := h.below
    refine .bind (hi.eval object s σ env p h.left) fun τ v hg _ => ?_
    refine .bind (hi.eval place (object.resolve.next s) τ env p (h.right hg (object.stack_next s))) fun υ q _ _ => ?_
    exact .plainValue (Run.tame_element (π.plain_good υ))
  | setIndex object place op pos value => exact hi.setIndex object place op pos value s σ env p h
  | get object name =>
    refine .bind (hi.eval object s σ env p h.below) fun τ v _ _ => ?_
    rw [isSuper_withDepths]
    exact sim_member _ v name.text
  | set object name op pos value => exact hi.setMember object name op pos value s σ env p h
  | call callee args =>
    have h := h.below
    refine .bind (hi.eval callee s σ env p h.left) fun τ f hg hf => ?_
    refine .bind (hi.evalAll args (callee.resolve.next s) (h.right hg (callee.stack_next s))) fun υ vs hg' hvs => ?_
    exact hi.call (hf.mono hg') hvs
  | block returns params body =>
    refine .bind (.snapshot h.chain) fun τ copy hg hcopy => .pure (f := Value.withDepths _) ?_
    exact ⟨body, s, p, rfl, h.known, hcopy.mono (.refl τ) fun _ hx => hx.mono (subset_cons_self _ _)⟩

end Expressions

end ObjScript
