import ObjScript.Proofs.Eval.Simulation
import ObjScript.Proofs.Store.Frames

/-!
# Steps that make frames or bind names

Making a frame for a scope, binding a method, copying a chain of frames, and reading and writing a name each
simulate their counterpart that keeps no notes.  A name is read and written in the same frame with its
depth and without it, because no nearer frame binds the name (`Chain.find`).
-/

namespace ObjScript

variable {π : Plan} {σ τ : Tracked}

/-- The state with one more frame. -/
def Tracked.push (σ : Tracked) (o : Opener) (new : Frame) : Tracked :=
  { σ with
    machine := { σ.machine with store := { σ.machine.store with frames := σ.machine.store.frames.push new } }
    origins := σ.origins.push o }

private theorem Tracked.grows_push (σ : Tracked) (o : Opener) (new : Frame) : σ.Grows (σ.push o new) := by
  refine ⟨fun {i o'} hi => ?_, fun {f x} hx => ?_⟩
  · have hlt : i < σ.origins.size := (Array.getElem?_eq_some_iff.1 hi).1
    change (σ.origins.push o)[i]? = some o'
    rw [Array.getElem?_push, if_neg (Nat.ne_of_lt hlt), hi]
  · unfold Tracked.Binds Tracked.push
    rw [Store.frame_push]
    split
    · next hf =>
      unfold Tracked.Binds at hx
      rw [Store.frame_of_size_le (Nat.le_of_eq hf.symm)] at hx
      cases hx
    · exact hx

/-- A new frame keeps the invariant if it binds sound values and, in a comparison, names of its scope. -/
private theorem Plan.Inv.push (hσ : π.Inv σ) {o : Opener} {new : Frame}
    (hnew : new.bindings.All (π.Good (σ.push o new)))
    (hnames : π.forgets = true → new.receiver = none ∧ ∀ x, new.bindings.has x = true → x ∈ o.names π.top) :
    π.Inv (σ.push o new) := by
  have hg := σ.grows_push o new
  refine ⟨?_, hg.origins hσ.builtins, hg.origins hσ.program, ?_, ?_, ?_, ?_⟩
  · change (σ.origins.push o).size = (σ.machine.store.frames.push new).size
    rw [Array.size_push, Array.size_push, hσ.size]
  · exact (hσ.store.mono (fun _ hv => hv.mono hg) (fun _ hm => hm.mono hg)).pushFrame hnew
  · intro g hgs
    obtain ⟨v, frames, hv, ha⟩ := hσ.sightings g hgs
    exact ⟨v, frames, hv, ha.mono hg.origins⟩
  · intro hforgets f
    change (Store.frame { σ.machine.store with frames := σ.machine.store.frames.push new } f).receiver = none
    rw [Store.frame_push]
    split
    · exact (hnames hforgets).1
    · exact hσ.receiver hforgets f
  · intro hforgets f x hf hx
    change (Store.frame { σ.machine.store with frames := σ.machine.store.frames.push new } f).bindings.has x = true
      at hx
    rw [Store.frame_push] at hx
    split at hx
    · next hindex =>
      refine ⟨o, ?_, (hnames hforgets).2 x hx⟩
      change (σ.origins.push o)[f.index]? = some o
      rw [hindex, ← hσ.size, Array.getElem?_push_size]
    · obtain ⟨o', ho', hx⟩ := hσ.names hforgets f x hf hx
      exact ⟨o', hg.origins ho', hx⟩

/-- What is known of a new frame. -/
structure Fresh (σ : Tracked) (o : Opener) (new : Frame) (f : FrameId) : Prop where
  globals : f ≠ .globals
  origin : σ.origins[f.index]? = some o
  binds : ∀ x, new.bindings.has x = true → σ.Binds f x

private theorem Plan.Inv.fresh (hσ : π.Inv σ) (o : Opener) (new : Frame) :
    Fresh (σ.push o new) o new ⟨σ.machine.store.frames.size⟩ := by
  have hpos : 0 < σ.machine.store.frames.size := by
    rw [← hσ.size]
    exact (Array.getElem?_eq_some_iff.1 hσ.builtins).1
  refine ⟨fun h => ?_, ?_, fun x hx => ?_⟩
  · exact absurd (congrArg FrameId.index h) (Nat.ne_of_gt hpos)
  · change (σ.origins.push o)[σ.machine.store.frames.size]? = some o
    rw [← hσ.size, Array.getElem?_push_size]
  · unfold Tracked.Binds Tracked.push
    rw [Store.frame_push, if_pos rfl]
    exact hx

private theorem machine_push (σ : Tracked) (o : Opener) (new : Frame) (g : Option Nat → Option Nat) :
    (σ.push o new).machine.withDepths g = { σ.machine.withDepths g with
      store := { (σ.machine.store.withDepths g) with
        frames := (σ.machine.store.withDepths g).frames.push (new.withDepths g) } } := by
  unfold Tracked.push Machine.withDepths Store.withDepths
  simp only [Array.map_push]

/-- Making a frame. -/
theorem Sim.newFrame {o : Opener} {new : Frame} (hnew : new.bindings.All (π.Good σ))
    (hnames : π.forgets = true → new.receiver = none ∧ ∀ x, new.bindings.has x = true → x ∈ o.names π.top) :
    Sim π id (fun τ f => Fresh τ o new f) σ (Track.newFrame o new)
      (Run.onStore (Store.newFrame (new.withDepths π.depth))) := by
  intro hσ
  have hg := σ.grows_push o new
  have hnew' : new.bindings.All (π.Good (σ.push o new)) := hnew.mono fun _ hv => hv.mono hg
  refine ⟨.ok ⟨σ.machine.store.frames.size⟩, σ.push o new, rfl, ?_, hσ.push hnew' hnames, hg,
    fun f hf => Except.ok.inj hf ▸ hσ.fresh o new⟩
  have hsize : (σ.machine.store.withDepths π.depth).frames.size = σ.machine.store.frames.size := Array.size_map
  rw [machine_push]
  change (Except.ok (FrameId.mk (σ.machine.store.withDepths π.depth).frames.size), _) = _
  rw [hsize]
  rfl

/-! ### Binding methods -/

section Binding

variable {P : Value → Prop} {M : Method → Prop} {g : Option Nat → Option Nat} {m : Machine}

/-- The steps give the same value on machines that differ in depths alone.  Either the machine stays as it
is, or the value is a method that was bound on a new frame. -/
def Run.MayBind (P : Value → Prop) (M : Method → Prop) (g : Option Nat → Option Nat) (m : Machine)
    (t u : Run Value) : Prop :=
  (∃ v, t.result m = (.ok v, m) ∧ u.result (m.withDepths g) = (.ok (v.withDepths g), m.withDepths g) ∧ P v) ∨
  ∃ f new, M (.closure f) ∧ new.bindings.All Value.IsPlain ∧
    t.result m = (.ok (.function { f with env := ⟨m.store.frames.size⟩ :: f.env }),
      { m with store := { m.store with frames := m.store.frames.push new } }) ∧
    u.result (m.withDepths g) =
      (.ok (Value.withDepths g (.function { f with env := ⟨m.store.frames.size⟩ :: f.env })),
      Machine.withDepths g { m with store := { m.store with frames := m.store.frames.push new } })

namespace Run.MayBind

private theorem pure {v : Value} (hv : P v) : Run.MayBind P M g m (pure v) (pure (v.withDepths g)) :=
  .inl ⟨v, rfl, rfl, hv⟩

/-- A method on a new frame whose values contain no function. -/
private theorem newFrame {f : Closure} {new : Frame} (hf : M (.closure f)) (hplain : new.bindings.All Value.IsPlain)
    (hnew : new.withDepths g = new) :
    Run.MayBind P M g m
      (Run.onStore do
        let frame ← Store.newFrame new
        return .function { f with env := frame :: f.env })
      (Run.onStore do
        let frame ← Store.newFrame new
        return .function { f.withDepths g with env := frame :: f.env }) := by
  refine .inr ⟨f, new, hf, hplain, rfl, ?_⟩
  have hframe := Store.recodes_newFrame (r := .depths g) new m.store
  change (Store.newFrame (new.withDepths g)).run (m.store.withDepths g) = _ at hframe
  rw [hnew] at hframe
  exact congrArg (fun x : FrameId × Store =>
    (Except.ok (Value.function { f.withDepths g with env := x.1 :: f.env }),
      { m.withDepths g with store := x.2 })) hframe

private theorem member {found : Member} (hfound : found.Holds P M) :
    Run.MayBind P M g m (Run.onStore (Store.memberValue found))
      (Run.onStore (Store.memberValue (found.withDepths g))) := by
  cases found with
  | value v => exact .inl ⟨v, rfl, rfl, hfound⟩
  | method f i superclass =>
    refine newFrame hfound ?_ ?_
    · cases superclass with
      | none => exact List.forall_mem_cons.2 ⟨trivial, List.forall_mem_nil _⟩
      | some c => exact List.forall_mem_cons.2 ⟨trivial, List.forall_mem_singleton.2 trivial⟩
    · cases superclass <;> rfl

private theorem staticMethod (hP : HoldsOfPlain P) {found : Option FoundMethod} (hfound : ∀ k ∈ found, M k.method)
    (c : ClassId) :
    Run.MayBind P M g m (Run.staticMethod found c) (Run.staticMethod (found.map (·.withDepths g)) c) := by
  cases found with
  | none => exact .inl ⟨.null, rfl, rfl, hP _ trivial⟩
  | some k =>
    obtain ⟨owner, method, superclass⟩ := k
    cases method with
    | alloc => exact .inl ⟨.native (.alloc owner), rfl, rfl, hP _ trivial⟩
    | closure f => exact newFrame (hfound _ rfl) (List.forall_mem_singleton.2 trivial) rfl

theorem ofSuper (hP : HoldsOfPlain P) {found : Option FoundMethod} (hfound : ∀ k ∈ found, M k.method) (c : ClassId)
    (x : String) (self : Value) :
    Run.MayBind P M g m (Run.ofSuper found c x self)
      (Run.ofSuper (found.map (·.withDepths g)) c x (self.withDepths g)) := by
  cases self with
  | object i =>
    cases found with
    | none =>
      change Run.MayBind P M g m (Pure.pure (if x = "init" then .native (.init i) else .null))
        (Pure.pure (if x = "init" then .native (.init i) else .null))
      split
      · exact .inl ⟨_, rfl, rfl, hP _ trivial⟩
      · exact .inl ⟨_, rfl, rfl, hP _ trivial⟩
    | some k =>
      obtain ⟨owner, method, superclass⟩ := k
      cases method with
      | alloc => exact .inl ⟨.native (.alloc owner), rfl, rfl, hP _ trivial⟩
      | closure f =>
        have hmethod : (Member.method f i superclass).Holds P M := hfound _ rfl
        have hbind := member (g := g) (m := m) hmethod
        exact hbind
  | _ => exact staticMethod hP hfound c

/-- Only the results on the two machines count. -/
private theorem congr {t t' u u' : Run Value} (h : Run.MayBind P M g m t' u') (ht : t.result m = t'.result m)
    (hu : u.result (m.withDepths g) = u'.result (m.withDepths g)) : Run.MayBind P M g m t u := by
  unfold Run.MayBind
  rw [ht, hu]
  exact h

end Run.MayBind

/-- The value of what was looked for: a method is bound, and null stands for nothing. -/
def Run.ofMember : Option Member → Run Value
  | some found => Run.onStore (Store.memberValue found)
  | none => pure .null

/-- What a name stands for is found first, and then a method is bound. -/
theorem result_readName (env : Env) (x : String) (m : Machine) :
    (Run.readName env x).result m = (Run.ofMember (m.store.lookup? env x)).result m := by
  change ((Except.ok ((Store.read env x).run m.store).1 : Except Stop Value),
    ({ m with store := ((Store.read env x).run m.store).2 } : Machine)) = _
  unfold Store.read
  rw [StateT.run_bind, StateT.run_get, pure_bind]
  cases m.store.lookup? env x <;> rfl

theorem result_instanceMember (i : InstanceId) (x : String) (m : Machine) :
    (Run.instanceMember i x).result m = (Run.ofMember (m.store.member? i x)).result m := by
  unfold Run.instanceMember
  rw [Run.result_get_bind]
  cases m.store.member? i x <;> rfl

theorem result_classMember (c : ClassId) (x : String) (m : Machine) :
    (Run.classMember c x).result m =
      (Run.staticMethod (m.store.findMethod? Method.isStatic x (m.store.line c)) c).result m := rfl

section Lookup

variable (hP : HoldsOfPlain P) (hm : m.store.Holds P M)

include hP hm

/-- A name that is looked up in two chains with the same outcome. -/
theorem mayBind_readName {env env' : Env} {x : String} (henv : m.store.lookup? env' x = m.store.lookup? env x) :
    Run.MayBind P M g m (Run.readName env x) (Run.readName env' x) := by
  have hlookup : (m.withDepths g).store.lookup? env' x = (m.store.lookup? env x).map (Member.withDepths g) := by
    rw [← henv]
    exact Store.lookup?_withDepths m.store env' x
  refine Run.MayBind.congr ?_ (result_readName env x m) (result_readName env' x (m.withDepths g))
  rw [hlookup]
  cases hfound : m.store.lookup? env x with
  | none => exact .pure (hP _ trivial)
  | some found => exact .member (hm.lookup? hP hfound)

theorem mayBind_instanceMember (i : InstanceId) (x : String) :
    Run.MayBind P M g m (Run.instanceMember i x) (Run.instanceMember i x) := by
  have hmember : (m.withDepths g).store.member? i x = (m.store.member? i x).map (Member.withDepths g) :=
    Store.member?_withDepths m.store i x
  refine Run.MayBind.congr ?_ (result_instanceMember i x m) (result_instanceMember i x (m.withDepths g))
  rw [hmember]
  cases hfound : m.store.member? i x with
  | none => exact .pure (hP _ trivial)
  | some found => exact .member (hm.member? hP hfound)

theorem mayBind_classMember (c : ClassId) (x : String) :
    Run.MayBind P M g m (Run.classMember c x) (Run.classMember c x) := by
  have hfind : (m.withDepths g).store.findMethod? Method.isStatic x ((m.withDepths g).store.line c) =
      (m.store.findMethod? Method.isStatic x (m.store.line c)).map (·.withDepths g) := by
    change (m.store.withDepths g).findMethod? Method.isStatic x ((m.store.withDepths g).line c) = _
    rw [Store.line_withDepths]
    exact Store.findMethod?_withDepths m.store _ Method.isStatic_withDepths x _
  refine Run.MayBind.congr ?_ (result_classMember c x m) (result_classMember c x (m.withDepths g))
  rw [hfind]
  exact .staticMethod hP (fun k hk => hm.findMethod? hk) c

end Lookup

end Binding

/-- The notes of a step that may bind a method. -/
private theorem Track.result_binding {t : Run Value} {v : Value} {m : Machine}
    (ht : t.result σ.machine = (.ok v, m)) :
    (Track.binding t).result σ = (.ok v,
      if σ.machine.store.frames.size < m.store.frames.size then
        { σ with machine := m, origins := σ.origins.push (Track.boundOrigin v) }
      else { σ with machine := m }) := by
  have hplain : (Track.plain t).result σ = ((t.result σ.machine).1, { σ with machine := (t.result σ.machine).2 }) :=
    rfl
  rw [ht] at hplain
  change (Track.plain t >>= fun v => (modify fun τ =>
    if σ.machine.store.frames.size < τ.machine.store.frames.size then
      { τ with origins := τ.origins.push (Track.boundOrigin v) }
    else τ) >>= fun _ => (pure v : Track Value)).result σ = _
  rw [Track.result_bind, hplain]
  rfl

/-- Binding a method makes a frame for the members of its class. -/
theorem Sim.binding {t u : Run Value}
    (h : π.Inv σ → Run.MayBind (π.Good σ) (π.GoodMethod σ) π.depth σ.machine t u) :
    Sim π (Value.withDepths π.depth) π.Good σ (Track.binding t) u := by
  intro hσ
  rcases h hσ with ⟨v, ht, hu, hv⟩ | ⟨f, new, hf, hplain, ht, hu⟩
  · have hresult := Track.result_binding ht
    rw [if_neg (Nat.lt_irrefl _)] at hresult
    exact ⟨.ok v, σ, hresult, hu, hσ, .refl σ, fun a ha => Except.ok.inj ha ▸ hv⟩
  · have hresult := Track.result_binding ht
    rw [if_pos (by rw [Array.size_push]; exact Nat.lt_succ_self _)] at hresult
    obtain ⟨hforgets, stmts, s, names, outer, p, hbody, hvisits, hstack, hchain⟩ := hf
    let τ := σ.push (.members f.decl) new
    have hg : σ.Grows τ := σ.grows_push (.members f.decl) new
    have hfresh := hσ.fresh (.members f.decl) new
    have hτ : π.Inv τ := hσ.push (hplain.mono (π.plain_good τ)) fun h => by rw [hforgets] at h; cases h
    refine ⟨_, τ, hresult, hu, hτ, hg, fun a ha => Except.ok.inj ha ▸ ?_⟩
    refine ⟨stmts, s, .members f.decl :: p, hbody, hvisits, ?_⟩
    rw [hstack]
    refine .scope hfresh.globals hfresh.origin (fun h => ?_) (hchain.mono hg fun _ hx => hx)
    rw [hforgets] at h
    cases h

/-! ### Copying a chain -/

theorem result_copyFrame (f : FrameId) (m : Machine) :
    (Run.onStore (Store.copyFrame f)).result m = (Run.onStore (Store.newFrame (m.store.frame f))).result m :=
  rfl

/-- The frames of a chain are copied from the outermost one inward. -/
theorem result_snapshot_cons {f : FrameId} (hf : f ≠ .globals) (outer : Env) (m : Machine) :
    (Run.onStore (Store.snapshot (some .globals) (f :: outer))).result m =
      (Run.onStore (Store.snapshot (some .globals) outer) >>= fun outer =>
        Run.onStore (Store.copyFrame f) >>= fun copy => pure (copy :: outer)).result m := by
  have hne : ¬ some f = some FrameId.globals := fun h => hf (Option.some.inj h)
  rw [Store.snapshot, if_neg hne]
  rfl

/-- The copy of a frame is made for the same scope and binds the same names. -/
private theorem Sim.copyFrame {f : FrameId} {o : Opener} (hf : f ≠ .globals) (ho : σ.origins[f.index]? = some o) :
    Sim π id (fun τ copy => Fresh τ o (σ.machine.store.frame f) copy) σ
      (Track.newFrame (σ.origin f) (σ.machine.store.frame f)) (Run.onStore (Store.copyFrame f)) := by
  refine .ofInv fun hσ => ?_
  have horigin : σ.origin f = o := by
    rw [Tracked.origin, Array.getD_eq_getD_getElem?, ho]
    rfl
  have hu := result_copyFrame f (σ.machine.withDepths π.depth)
  have hview : (σ.machine.withDepths π.depth).store.frame f = (σ.machine.store.frame f).withDepths π.depth :=
    Store.frame_withDepths σ.machine.store f
  rw [hview] at hu
  rw [horigin]
  refine (Sim.newFrame (hσ.store.frame f) fun hforgets => ⟨hσ.receiver hforgets f, fun x hx => ?_⟩).congr rfl hu
  obtain ⟨o', ho', hx⟩ := hσ.names hforgets f x hf hx
  rwa [Option.some.inj (ho.symm.trans ho')]

/-- A copy of a chain follows the same scopes. -/
theorem Sim.snapshot {mentioned : String → Prop} {env : Env} {stack : List Names} {p : List Opener}
    (h : Chain π σ mentioned env stack p) :
    Sim π id (fun τ copy => Chain π τ mentioned copy stack p) σ (Track.snapshot env)
      (Run.onStore (Store.snapshot (some .globals) env)) := by
  induction h with
  | globals => exact fun hσ => ⟨.ok [.globals], σ, rfl, rfl, hσ, .refl σ, fun _ h => Except.ok.inj h ▸ .globals⟩
  | @scope f o names env stack p hf ho hn hchain ih =>
    have hstep : Sim π id (fun τ copy => Chain π τ mentioned copy (names :: stack) (o :: p)) σ
        (Track.snapshot env >>= fun outer => get >>= fun τ =>
          Track.newFrame (τ.origin f) (τ.machine.store.frame f) >>= fun copy => Pure.pure (copy :: outer))
        (Run.onStore (Store.snapshot (some .globals) env) >>= fun outer =>
          Run.onStore (Store.copyFrame f) >>= fun copy => Pure.pure (copy :: outer)) := by
      refine .bind ih fun τ outer hg houter => ?_
      have hcopy : Sim π id (fun τ copy => Chain π τ mentioned copy (names :: stack) (o :: p)) τ
          (Track.newFrame (τ.origin f) (τ.machine.store.frame f) >>= fun copy => Pure.pure (copy :: outer))
          (Run.onStore (Store.copyFrame f) >>= fun copy => Pure.pure (copy :: outer)) := by
        refine .bind (.copyFrame hf (hg.origins ho)) fun υ copy hg' hcopy => .pure ?_
        refine .scope hcopy.globals hcopy.origin (fun hforgets => ⟨(hn hforgets).1, fun x hx hm => ?_⟩)
          (houter.mono hg' fun _ hx => hx)
        exact hcopy.binds x (hg.binds ((hn hforgets).2 x hx hm))
      exact hcopy.congr rfl rfl
    refine hstep.congr ?_ (result_snapshot_cons hf env _)
    rw [Track.snapshot, if_neg hf]

end ObjScript
