import ObjScript.Proofs.Eval.Variables

/-!
# Members and classes

Members are found alike in both runs, and a method that is found is bound on a frame for the members of its
class.  An implementation gives its class sound methods.
-/

namespace ObjScript

variable {π : Plan} {σ τ : Tracked} {env : Env}

/-- The member of a class that is reached through `super`, in two steps. -/
theorem result_superMember (env : Env) (c : ClassId) (x : String) (m : Machine) :
    Run.result (Run.superMember env c x) m = (Run.readName env "self" >>=
      Run.ofSuper (m.store.findMethod? (fun _ => true) x (m.store.line c)) c x).result m := by
  rfl

private theorem sim_superMember (c : ClassId) (x : String) :
    Sim π (Value.withDepths π.depth) π.Good σ (Run.superMember env c x) (Run.superMember env c x) := by
  refine .ofInv fun hσ => ?_
  let found := σ.machine.store.findMethod? (fun _ => true) x (σ.machine.store.line c)
  have hfound : (σ.machine.withDepths π.depth).store.findMethod? (fun _ => true) x
      ((σ.machine.withDepths π.depth).store.line c) = found.map (·.withDepths π.depth) := by
    change (σ.machine.store.withDepths π.depth).findMethod? _ x ((σ.machine.store.withDepths π.depth).line c) = _
    rw [Store.line_withDepths]
    exact Store.findMethod?_withDepths σ.machine.store _ (fun _ => rfl) x _
  have hu := result_superMember env c x (σ.machine.withDepths π.depth)
  rw [hfound] at hu
  have hstep : Sim π (Value.withDepths π.depth) π.Good σ
      (Track.binding (Run.readName env "self") >>= fun self => Track.binding (Run.ofSuper found c x self))
      (Run.readName env "self" >>= Run.ofSuper (found.map (·.withDepths π.depth)) c x) := by
    refine .bind (.binding fun hσ => mayBind_readName (π.plain_good σ) hσ.store rfl) fun τ self hg _ => ?_
    refine .binding fun _ => .ofSuper (π.plain_good τ) (fun k hk => ?_) c x self
    exact Plan.GoodMethod.mono (hσ.store.findMethod? hk) hg
  exact hstep.congr rfl hu

theorem sim_member (viaSuper : Bool) (v : Value) (x : String) :
    Sim π (Value.withDepths π.depth) π.Good σ (Run.member env viaSuper v x)
      (Run.member env viaSuper (v.withDepths π.depth) x) := by
  have hbuiltin : ∀ w : Value, Sim π (Value.withDepths π.depth) π.Good σ (pure (Run.builtinMember w x))
      (pure (Run.builtinMember (w.withDepths π.depth) x)) := by
    intro w
    have hplain : ∀ w : Value, (Run.builtinMember w x).IsPlain := by
      intro w
      unfold Run.builtinMember
      split <;> trivial
    have hview : Run.builtinMember (w.withDepths π.depth) x = (Run.builtinMember w x).withDepths π.depth :=
      Run.builtinMember_recoded (r := .depths π.depth) x
    rw [hview]
    exact .pure (π.plain_good σ _ (hplain w))
  cases v with
  | object i => exact .binding fun hσ => mayBind_instanceMember (π.plain_good σ) hσ.store i x
  | classRef c =>
    cases viaSuper with
    | true => exact sim_superMember c x
    | false => exact .binding fun hσ => mayBind_classMember (π.plain_good σ) hσ.store c x
  | _ => exact hbuiltin _

/-- A step that makes no frame may be taken in two parts. -/
private theorem result_plain_bind {α β : Type} (t : Run α) (k : α → Run β) (σ : Tracked) :
    (Track.plain (t >>= k)).result σ = (Track.plain t >>= fun a => Track.plain (k a)).result σ := by
  have hplain : ∀ {γ : Type} (u : Run γ) (τ : Tracked),
      (Track.plain u).result τ = ((u.result τ.machine).1, { τ with machine := (u.result τ.machine).2 }) :=
    fun _ _ => rfl
  rw [Track.result_bind, hplain, hplain, Run.result_bind]
  generalize t.result σ.machine = x
  obtain ⟨r, m⟩ := x
  cases r <;> rfl

/-- The nearest frame that owns a name is given another value for it. -/
theorem result_assign_getD (env : Env) (x : String) (v : Value) (m : Machine) :
    (Run.modifyStore fun s => (s.assign? env x v).getD s).result m =
      Run.result (match env.find? (m.store.owns · x) with
      | some f => Run.modifyStore (·.define f x v)
      | none => pure ()) m := by
  let found := (env.find? (m.store.owns · x)).map fun f => m.store.define f x v
  change ((Except.ok () : Except Stop Unit), ({ m with store := found.getD m.store } : Machine)) = _
  unfold found
  cases env.find? (m.store.owns · x) <;> rfl

private theorem sim_assign_class (env : Env) (x : String) (c : ClassId) :
    Sim π id (fun _ _ => True) σ
      (Track.plain (Run.modifyStore fun s => (s.assign? env x (.classRef c)).getD s))
      (Run.modifyStore fun s => (s.assign? env x (.classRef c)).getD s) := by
  refine .ofInv fun hσ => ?_
  have howns : (fun k => (σ.machine.withDepths π.depth).store.owns k x) = fun k => σ.machine.store.owns k x :=
    funext fun k => Store.owns_withDepths σ.machine.store k x
  have hu := result_assign_getD env x (.classRef c) (σ.machine.withDepths π.depth)
  rw [howns] at hu
  have ht := congrArg (fun r : Except Stop Unit × Machine => (r.1, { σ with machine := r.2 }))
    (result_assign_getD env x (.classRef c) σ.machine)
  cases hfind : env.find? (σ.machine.store.owns · x) with
  | some f =>
    rw [hfind] at ht hu
    have hown := List.find?_some (p := (σ.machine.store.owns · x)) hfind
    exact (hσ.sim_rebind hown (v := .classRef c) trivial).congr ht hu
  | none =>
    rw [hfind] at ht hu
    exact (Sim.pure (f := id) (Q := fun _ _ => True) trivial).congr ht hu

/-- A new class is bound to its name, where the name is owned. -/
theorem sim_makeClass {x : String} {lineage : List ClassId} {properties : Bindings Value}
    (hp : properties.All (π.Good σ)) :
    Sim π id (fun _ _ => True) σ (Track.plain (Run.makeClass env x lineage properties))
      (Run.makeClass env x lineage (properties.mapAll (Value.withDepths π.depth))) := by
  refine Sim.congr ?_ (result_plain_bind _ _ σ) rfl
  exact .bind (.plain (Run.tame_newClass trivial hp)) fun τ c _ _ => sim_assign_class env x c

/-- The methods of an implementation see its surroundings. -/
theorem methodTable_all {M : Method → Prop} {methods : List FunctionDecl} (h : ∀ d ∈ methods, M (.closure ⟨d, env⟩)) :
    (Run.methodTable env methods).All M := by
  refine Bindings.all_nil.putAll fun q hq => ?_
  obtain ⟨d, hd, rfl⟩ := List.mem_map.1 hq
  exact h d hd

private theorem methodTable_withDepths {g : Option Nat → Option Nat} (env : Env) (methods : List FunctionDecl) :
    Run.methodTable env (FunctionDecl.withDepthsList g methods) =
      (Run.methodTable env methods).mapAll (Method.withDepths g) := by
  have hmap : (FunctionDecl.withDepthsList g methods).map (fun d => (d.name.text, Method.closure ⟨d, env⟩)) =
      Bindings.mapAll (Method.withDepths g) (methods.map fun d => (d.name.text, Method.closure ⟨d, env⟩)) := by
    induction methods with
    | nil => rfl
    | cons d rest ih =>
      have hname := congrArg Name.text (d.withDepths_name g)
      exact congrArg₂ List.cons (congrArg (·, Method.closure ⟨d.withDepths g, env⟩) hname) ih
  unfold Run.methodTable
  rw [hmap]
  exact Bindings.putAll_mapAll (Method.withDepths g) [] _

/-- The methods of an implementation are sound. -/
theorem goodMethod_of_visits (hforgets : π.forgets = false) {nodes : List Node} {stack : List Names}
    {p : List Opener} {scope : Names} (hchain : Chain π σ (Mentioned nodes) env stack p)
    (methods : List FunctionDecl) (hn : FunctionDecl.nodesList methods ⊆ nodes) (s : Scopes)
    (hs : s.stack = scope :: stack) (hv : ∀ v ∈ FunctionDecl.visitsList methods s p, π.known v) :
    ∀ d ∈ (FunctionDecl.resolveList methods).value s, π.GoodMethod σ (.closure ⟨d, env⟩) := by
  induction methods generalizing s with
  | nil => exact List.forall_mem_nil _
  | cons d rest ih =>
    obtain ⟨name, params, body, isStatic⟩ := d
    obtain ⟨hfirst, hrest⟩ := List.forall_mem_append.1 hv
    obtain ⟨hbody, hn⟩ := List.append_subset.1 hn
    have hs' := (FunctionDecl.stack_next ⟨name, params, body, isStatic⟩ s).trans hs
    have hgood : π.GoodMethod σ (.closure ⟨(FunctionDecl.resolve ⟨name, params, body, isStatic⟩).value s, env⟩) :=
      ⟨hforgets, body, s, scope, stack, p, rfl, hfirst, hs, hchain.mono (.refl σ) fun _ hx => hx.mono hbody⟩
    exact List.forall_mem_cons.2 ⟨hgood, ih hn _ hs' hrest⟩

/-- The class that a name stands for is given the methods. -/
theorem sim_implement {x : String} {methods : List FunctionDecl}
    (hm : ∀ d ∈ methods, π.GoodMethod σ (.closure ⟨d, env⟩)) :
    Sim π id (fun _ _ => True) σ (Run.implement env x methods)
      (Run.implement env x (FunctionDecl.withDepthsList π.depth methods)) := by
  rw [Run.implement_eq, methodTable_withDepths]
  refine .bind (.binding fun hσ => mayBind_readName (π.plain_good σ) hσ.store rfl) fun τ v hg _ => ?_
  cases v with
  | classRef c =>
    have htable := methodTable_all fun d hd => (hm d hd).mono hg
    have hput : Sim π id (fun _ _ => True) τ
        (Track.plain (Run.modifyStore (·.putMethods c (Run.methodTable env methods))))
        (Run.modifyStore (·.putMethods c ((Run.methodTable env methods).mapAll (Method.withDepths π.depth)))) := by
      refine .plain (.modify (fun m => ?_) (fun _ => rfl) fun m hm => hm.putMethods c htable)
      exact congrArg (fun store => { m with store := store }) (Store.putMethods_withDepths m.store c _)
    exact hput.congr rfl rfl
  | _ =>
    have hdebug : Sim π id (fun _ _ => True) τ
        (Track.plain (Run.debug .objects do return "@implementation " ++ x ++ " has no matching class"))
        (Run.debug .objects do return "@implementation " ++ x ++ " has no matching class") :=
      .plain (Run.tame_debug (.pure trivial))
    exact hdebug.congr rfl rfl

end ObjScript
