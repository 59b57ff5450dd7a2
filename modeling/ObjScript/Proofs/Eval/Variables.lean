import ObjScript.Proofs.Eval.Frames

/-!
# Reading and writing names

Where no two scopes share a name, the frame that lies as far outward as the depth of a reference says is the
nearest one that owns the name (`Chain.find`).  So a name is read and written in the same frame with its
depth and without it.
-/

namespace ObjScript

variable {π : Plan} {σ τ : Tracked} {mentioned : String → Prop} {env : Env} {stack : List Names}
  {p : List Opener}

/-- The frames before the one that the depth leads to do not own the name, and that frame binds it if it is
mentioned. -/
private theorem Chain.find (hσ : π.Inv σ) (hforgets : π.forgets = true) (h : Chain π σ mentioned env stack p)
    (hcovers : List.Forall₂ (fun names o => o.Covers π.top names) stack p)
    (hapart : (p.map (Opener.names π.top)).Pairwise List.Disjoint) {x : String} {d : Nat}
    (hd : Resolve.depth? stack x = some d) :
    ∃ before f after, env = before ++ f :: after ∧ before.length = d ∧
      (∀ k ∈ before, σ.machine.store.owns k x = false) ∧ f ≠ .globals ∧ (mentioned x → σ.Binds f x) ∧
      ∃ o ∈ p, x ∈ o.names π.top := by
  induction h generalizing d with
  | globals => cases hd
  | @scope f o names env stack p hf ho hn hchain ih =>
    obtain ⟨hcover, hcovers⟩ := List.forall₂_cons.1 hcovers
    obtain ⟨hdisjoint, hapart⟩ := List.pairwise_cons.1 hapart
    rw [Resolve.depth?, List.findIdx?_cons] at hd
    split at hd
    · next hx =>
      have hx : x ∈ names := by simpa using hx
      cases hd
      refine ⟨[], f, env, rfl, rfl, List.forall_mem_nil _, hf, fun hm => (hn hforgets).2 x hx hm, o,
        List.mem_cons_self, ?_⟩
      cases o with
      | members d => exact absurd rfl ((hn hforgets).1 d)
      | _ => exact hcover x hx
    · obtain ⟨n, hdn, rfl⟩ := Option.map_eq_some_iff.1 hd
      obtain ⟨before, k, after, rfl, rfl, hbefore, hk, hbinds, o', ho', hx⟩ := ih hcovers hapart hdn
      refine ⟨f :: before, k, after, rfl, rfl, List.forall_mem_cons.2 ⟨?_, hbefore⟩, hk, hbinds, o',
        List.mem_cons_of_mem _ ho', hx⟩
      -- the frame binds only names of its own scope, and the name belongs to one further out
      rw [Store.owns_of_receiver (hσ.receiver hforgets f), ← Bool.not_eq_true]
      intro hown
      obtain ⟨o₁, ho₁, hx₁⟩ := hσ.names hforgets f x hf hown
      obtain rfl : o = o₁ := Option.some.inj (ho.symm.trans ho₁)
      exact hdisjoint _ (List.mem_map_of_mem ho') hx₁ hx

theorem findSome?_append_of_none {α β : Type} {before after : List α} {q : α → Option β}
    (h : ∀ a ∈ before, q a = none) : (before ++ after).findSome? q = after.findSome? q := by
  rw [List.findSome?_append, List.findSome?_eq_none_iff.2 h]
  rfl

/-- What is known where a reference is met: the chain of frames follows the scopes, and the analysis came to the
reference with them. -/
structure Met (π : Plan) (σ : Tracked) (env : Env) (stack : List Names) (p : List Opener) (x : String) : Prop where
  chain : Chain π σ (· = x) env stack p
  apart : π.forgets = true → List.Forall₂ (fun names o => o.Covers π.top names) stack p ∧
    (p.map (Opener.names π.top)).Pairwise List.Disjoint

/-- A name is found in the same frame with its depth and without it. -/
private theorem Met.lookup? (hσ : π.Inv σ) {name : Name} (h : Met π σ env stack p name.text) :
    σ.machine.store.lookup? (Run.refEnv env (Ref.withDepths π.depth ⟨name, Resolve.depth? stack name.text⟩))
        name.text =
      σ.machine.store.lookup? (Run.refEnv env ⟨name, Resolve.depth? stack name.text⟩) name.text := by
  cases hforgets : π.forgets with
  | false =>
    have hdepth : π.depth = id := by simp [Plan.depth, hforgets]
    rw [hdepth, Ref.withDepths_id]
  | true =>
    have hdepth : π.depth = fun _ => none := by simp [Plan.depth, hforgets]
    rw [hdepth]
    cases hd : Resolve.depth? stack name.text with
    | none => rfl
    | some d =>
      obtain ⟨hcovers, hapart⟩ := h.apart hforgets
      obtain ⟨before, f, after, henv, hlength, hbefore, -⟩ := h.chain.find hσ hforgets hcovers hapart hd
      change σ.machine.store.lookup? env name.text = σ.machine.store.lookup? (env.ancestor d) name.text
      rw [henv, ← hlength, ancestor_append]
      refine findSome?_append_of_none fun k hk => ?_
      exact Option.isNone_iff_eq_none.1 (Option.isSome_eq_false_iff.1 (hbefore k hk))

/-- Reading a reference. -/
theorem Sim.read {name : Name} (h : Met π σ env stack p name.text) :
    Sim π (Value.withDepths π.depth) π.Good σ
      (Track.binding (Run.read env ⟨name, Resolve.depth? stack name.text⟩))
      (Run.read env (Ref.withDepths π.depth ⟨name, Resolve.depth? stack name.text⟩)) :=
  .binding fun hσ => mayBind_readName (π.plain_good σ) hσ.store (h.lookup? hσ)

/-! ### Writing -/

/-- The state after a name was bound in a frame. -/
def Tracked.define (σ : Tracked) (f : FrameId) (x : String) (v : Value) : Tracked :=
  { σ with machine := { σ.machine with store := σ.machine.store.define f x v } }

private theorem Tracked.grows_define (σ : Tracked) (f : FrameId) (x : String) (v : Value) :
    σ.Grows (σ.define f x v) :=
  ⟨fun hi => hi, fun hx => Store.has_define hx⟩

private theorem Plan.Inv.define (hσ : π.Inv σ) {f : FrameId} {x : String} {v : Value} (hv : π.Good (σ.define f x v) v)
    (hx : π.forgets = true → f ≠ .globals → ∃ o, σ.origins[f.index]? = some o ∧ x ∈ o.names π.top) :
    π.Inv (σ.define f x v) := by
  have hg := σ.grows_define f x v
  refine ⟨hσ.size.trans (Store.size_define σ.machine.store f x v).symm, hσ.builtins, hσ.program, ?_, hσ.sightings,
    fun hforgets k => ?_, fun hforgets k y hk hy => ?_⟩
  · exact (hσ.store.mono (fun _ hw => hw.mono hg) (fun _ hm => hm.mono hg)).define hv f x
  · exact (Store.receiver_define σ.machine.store f x v k).trans (hσ.receiver hforgets k)
  · rcases Store.has_of_define (hσ.receiver hforgets f) hy with ⟨rfl, rfl⟩ | hy
    · exact hx hforgets hk
    · exact hσ.names hforgets k y hk hy

/-- Both runs bind a name in the same frame. -/
private theorem Plan.Inv.sim_define (hσ : π.Inv σ) {f : FrameId} {x : String} {v : Value}
    (hv : π.Good (σ.define f x v) v)
    (hx : π.forgets = true → f ≠ .globals → ∃ o, σ.origins[f.index]? = some o ∧ x ∈ o.names π.top) :
    Sim π id (fun τ _ => τ = σ.define f x v) σ (Track.plain (Run.modifyStore (·.define f x v)))
      (Run.modifyStore (·.define f x (v.withDepths π.depth))) := by
  intro _
  refine ⟨.ok (), σ.define f x v, rfl, ?_, hσ.define hv hx, σ.grows_define f x v, fun _ _ => rfl⟩
  exact congrArg (fun store => (Except.ok (), { σ.machine with store := store }))
    (Store.define_withDepths σ.machine.store f x v)

/-- Declaring a name in the innermost frame.  A function that mentions itself is sound once its name is bound. -/
theorem Sim.define {f : FrameId} {o : Opener} {x : String} {v : Value} (ho : σ.origins[f.index]? = some o)
    (hx : π.forgets = true → x ∈ o.names π.top)
    (hv : ∀ τ, σ.Grows τ → (π.forgets = true → τ.Binds f x) → π.Good τ v) :
    Sim π id (fun τ _ => π.forgets = true → τ.Binds f x) σ (Track.plain (Run.define (f :: env) x v))
      (Run.define (f :: env) x (v.withDepths π.depth)) := by
  refine .ofInv fun hσ => ?_
  have hlt : f.index < σ.machine.store.frames.size := by
    rw [← hσ.size]
    exact (Array.getElem?_eq_some_iff.1 ho).1
  have hbinds : π.forgets = true → (σ.define f x v).Binds f x :=
    fun hforgets => Store.has_define_self (hσ.receiver hforgets f) hlt
  have hdefine := hσ.sim_define (hv _ (σ.grows_define f x v) hbinds) fun hforgets _ => ⟨o, ho, hx hforgets⟩
  refine hdefine.weaken fun τ _ _ hτ => ?_
  rw [hτ]
  exact hbinds

/-- A frame that owns a name is given another value for it. -/
theorem Plan.Inv.sim_rebind (hσ : π.Inv σ) {f : FrameId} {x : String} {v : Value}
    (hown : σ.machine.store.owns f x = true) (hv : π.Good σ v) :
    Sim π id (fun _ _ => True) σ (Track.plain (Run.modifyStore (·.define f x v)))
      (Run.modifyStore (·.define f x (v.withDepths π.depth))) := by
  refine (hσ.sim_define (hv.mono (σ.grows_define f x v)) fun hforgets hf => ?_).weaken fun _ _ _ _ => trivial
  rw [Store.owns_of_receiver (hσ.receiver hforgets f)] at hown
  exact hσ.names hforgets f x hf hown

private theorem find?_append_cons {before after : Env} {f : FrameId} {q : FrameId → Bool}
    (h : ∀ k ∈ before, q k = false)
    (hf : q f = true) : (before ++ f :: after).find? q = some f := by
  rw [List.find?_append, List.find?_eq_none.2 (fun k hk => by simp [h k hk]), List.find?_cons, hf]
  rfl

/-- A name without a depth is written to the nearest frame that owns it. -/
theorem result_assign_none (env : Env) (name : Name) (v : Value) (m : Machine) :
    (Run.assign env ⟨name, none⟩ v).result m = Run.result (match env.find? (m.store.owns · name.text) with
      | some f => Run.modifyStore (·.define f name.text v)
      | none => Run.debug .assignments do
        return "assignment to undeclared " ++ Text.quoted name.text ++ " dropped") m := by
  unfold Run.assign
  dsimp only
  rw [Run.result_get_bind, Store.assign?]
  cases env.find? (m.store.owns · name.text) <;> rfl

/-- Writing to the nearest owner of a name. -/
private theorem Plan.Inv.sim_assign_none (hσ : π.Inv σ) (env : Env) (name : Name) {v : Value} (hv : π.Good σ v) :
    Sim π id (fun _ _ => True) σ (Track.plain (Run.assign env ⟨name, none⟩ v))
      (Run.assign env ⟨name, none⟩ (v.withDepths π.depth)) := by
  have howns : (fun k => (σ.machine.withDepths π.depth).store.owns k name.text) =
      fun k => σ.machine.store.owns k name.text :=
    funext fun k => Store.owns_withDepths σ.machine.store k name.text
  have hu := result_assign_none env name (v.withDepths π.depth) (σ.machine.withDepths π.depth)
  rw [howns] at hu
  have ht := congrArg (fun r : Except Stop Unit × Machine => (r.1, { σ with machine := r.2 }))
    (result_assign_none env name v σ.machine)
  cases hfind : env.find? (σ.machine.store.owns · name.text) with
  | some f =>
    rw [hfind] at ht hu
    have hown := List.find?_some (p := (σ.machine.store.owns · name.text)) hfind
    exact (hσ.sim_rebind hown hv).congr ht hu
  | none =>
    rw [hfind] at ht hu
    exact (Sim.plain (Run.tame_debug (.pure trivial))).congr ht hu

/-- With its depth kept, a name is written alike by both runs. -/
private theorem Plan.Inv.sim_assign_kept (hσ : π.Inv σ) (hforgets : π.forgets = false) (env : Env) (name : Name)
    (d : Nat)
    {v : Value} (hv : π.Good σ v) :
    Sim π id (fun _ _ => True) σ (Track.plain (Run.assign env ⟨name, some d⟩ v))
      (Run.assign env (Ref.withDepths π.depth ⟨name, some d⟩) (v.withDepths π.depth)) := by
  have hdepth : π.depth = id := by simp [Plan.depth, hforgets]
  have hsame : Ref.withDepths π.depth ⟨name, some d⟩ = ⟨name, some d⟩ := by rw [hdepth, Ref.withDepths_id]
  rw [hsame]
  change Sim π id _ σ (Track.plain (Run.define (env.ancestor d) name.text v))
    (Run.define (env.ancestor d) name.text (v.withDepths π.depth))
  cases env.ancestor d with
  | nil => exact fun _ => ⟨.ok (), σ, rfl, rfl, hσ, .refl σ, fun _ _ => trivial⟩
  | cons f outer =>
    refine (hσ.sim_define (hv.mono (σ.grows_define f name.text v)) fun h => ?_).weaken fun _ _ _ _ => trivial
    rw [hforgets] at h
    cases h

/-- Without its depth, a name is written to the nearest owner, and to that frame the depth leads. -/
private theorem Plan.Inv.sim_assign_forgotten (hσ : π.Inv σ) (hforgets : π.forgets = true) {name : Name}
    (h : Met π σ env stack p name.text) {d : Nat} (hd : Resolve.depth? stack name.text = some d) {v : Value}
    (hv : π.Good σ v) :
    Sim π id (fun _ _ => True) σ (Track.plain (Run.assign env ⟨name, some d⟩ v))
      (Run.assign env (Ref.withDepths π.depth ⟨name, some d⟩) (v.withDepths π.depth)) := by
  obtain ⟨hcovers, hapart⟩ := h.apart hforgets
  obtain ⟨before, f, after, henv, hlength, hbefore, -, hbinds, -⟩ := h.chain.find hσ hforgets hcovers hapart hd
  have hown : σ.machine.store.owns f name.text = true := by
    rw [Store.owns_of_receiver (hσ.receiver hforgets f)]
    exact hbinds rfl
  have hdepth : π.depth (some d) = none := by simp [Plan.depth, hforgets]
  have hfind : env.find? ((σ.machine.withDepths π.depth).store.owns · name.text) = some f := by
    have howns := fun k => Store.owns_withDepths (g := π.depth) σ.machine.store k name.text
    rw [henv]
    exact find?_append_cons (fun k hk => (howns k).trans (hbefore k hk)) ((howns f).trans hown)
  have hu := result_assign_none env name (v.withDepths π.depth) (σ.machine.withDepths π.depth)
  rw [hfind] at hu
  have hancestor : env.ancestor d = f :: after := by rw [henv, ← hlength, ancestor_append]
  change Sim π id _ σ (Track.plain (Run.define (env.ancestor d) name.text v))
    (Run.assign env ⟨name, π.depth (some d)⟩ (v.withDepths π.depth))
  rw [hdepth, hancestor]
  exact (hσ.sim_rebind hown hv).congr rfl hu

/-- Writing to a reference. -/
theorem Sim.assign {name : Name} {v : Value} (h : Met π σ env stack p name.text) (hv : π.Good σ v) :
    Sim π id (fun _ _ => True) σ
      (Track.plain (Run.assign env ⟨name, Resolve.depth? stack name.text⟩ v))
      (Run.assign env (Ref.withDepths π.depth ⟨name, Resolve.depth? stack name.text⟩)
        (v.withDepths π.depth)) := by
  refine .ofInv fun hσ => ?_
  cases hd : Resolve.depth? stack name.text with
  | none =>
    have hnone : π.depth none = none := by
      unfold Plan.depth
      split <;> rfl
    change Sim π id _ σ _ (Run.assign env ⟨name, π.depth none⟩ (v.withDepths π.depth))
    rw [hnone]
    exact hσ.sim_assign_none env name hv
  | some d =>
    cases hforgets : π.forgets with
    | false => exact hσ.sim_assign_kept hforgets env name d hv
    | true => exact hσ.sim_assign_forgotten hforgets h hd hv

end ObjScript
