import ObjScript.Proofs.Session.Code
import ObjScript.Proofs.Store.Methods

/-!
# How methods are found and what they run on

A method of an instance is the one of the nearest class of its line.  It runs on a frame that knows the instance and
the superclass of the class that defines it, and a send to `super` starts from there, so that it never comes back to
the class it is written in (`methods_dispatch`).

The frames are told apart by one regime: the frame of a scope that is no implementation knows neither `self` nor
`super`, and the frame of an implementation is the one that a method was bound on (`Regime.methods`).  The analysis
finds `self` and `super` in the scope of the nearest implementation, and this is the scope of that frame.
-/

namespace ObjScript

/-! ### Finding and calling a method -/

/-- The number of the next frame. -/
def Machine.nextFrame (m : Machine) : FrameId :=
  ⟨m.store.frames.size⟩

/-- The machine with one more frame. -/
def Machine.withFrame (m : Machine) (new : Frame) : Machine :=
  { m with store := { m.store with frames := m.store.frames.push new } }

/-- On the machine `m`, the expression gives the method `f` on the frame and leads to the machine `m'`.  A call then
evaluates the arguments and runs the body on this frame. -/
structure Finds (n : Nat) (env : Env) (e : Expr) (m m' : Machine) (f : Closure) (frame : FrameId) : Prop where
  value : ((interp n).eval env e).result m = (.ok (.function { f with env := frame :: f.env }), m')
  call : ∀ args, ((interp (n + 1)).eval env (.call e args)).result m = (do
    let vs ← Run.evalAll (interp n) env args
    Run.invoke (interp n) f.decl.params f.decl.body (frame :: f.env) vs).result m'

section Results

variable {n : Nat} {env : Env} {e : Expr} {m m' : Machine} {f : Closure} {x : String} {v : Value}

private theorem result_call_of_value (h : ((interp n).eval env e).result m = (.ok v, m')) (args : List Expr) :
    ((interp (n + 1)).eval env (.call e args)).result m = (do
      let vs ← Run.evalAll (interp n) env args
      Run.call (interp n) v vs).result m' := by
  change ((interp n).eval env e >>= _).result m = _
  rw [Run.result_bind, h]

private theorem Finds.ofValue {frame : FrameId}
    (h : ((interp n).eval env e).result m = (.ok (.function { f with env := frame :: f.env }), m')) :
    Finds n env e m m' f frame :=
  ⟨h, result_call_of_value h⟩

theorem result_get_of_value {name : Name} (h : ((interp n).eval env e).result m = (.ok v, m')) :
    ((interp (n + 1)).eval env (.get e name)).result m =
      Run.result (Run.member env (Run.isSuper e) v name.text) m' := by
  change ((interp n).eval env e >>= _).result m = _
  rw [Run.result_bind, h]
  rfl

theorem result_readName_value (h : m.store.lookup? env x = some (.value v)) :
    (Run.readName env x).result m = (.ok v, m) := by
  rw [result_readName, h]
  rfl

end Results

/-! ### The regime -/

/-- What is known of a place: it binds no reserved word, and `self` and `super` are found in the scope of the nearest
implementation. -/
structure Place.WellPlaced (a : Place) : Prop where
  names : ∀ x ∈ a.node.binds, IsName x
  self : ∀ ref, a.node = .expr (.selfRef ref) → ref.name.text = "self" ∧ ref.depth = a.around.home?
  super : ∀ ref, a.node = .expr (.superRef ref) → ref.name.text = "super" ∧ ref.depth = a.around.home?

/-- The analysis finds `self` and `super` in the scope of the nearest implementation. -/
theorem Sited.wellPlaced {T : String → String → Prop} {site : Site} (h : Sited T Node.Written site) :
    site.place.WellPlaced := by
  obtain ⟨n, s, hn, hs, hnode⟩ := h
  obtain ⟨_, σ⟩ := site
  subst hnode
  have hforget : (n.resolved s).forget = n := Node.forget_resolved (fun k hk => (hn k hk).1) s
  obtain ⟨hparsed, hnames, hnamed⟩ := hn n n.mem_below
  refine ⟨fun x hx => hnames x (List.mem_append_left _ ?_), fun ref href => ?_, fun ref href => ?_⟩
  · change x ∈ (n.resolved s).binds at hx
    rwa [← Node.binds_forget, hforget] at hx
  · have hd : ref.depth = Resolve.depth? s.stack ref.name.text :=
      Node.depth_resolved hparsed (congrArg Node.ref? href)
    change n.resolved s = .expr (.selfRef ref) at href
    rw [href] at hforget
    subst hforget
    exact ⟨hnamed, hd.trans (hs.depth?_reserved (.inl hnamed))⟩
  · have hd : ref.depth = Resolve.depth? s.stack ref.name.text :=
      Node.depth_resolved hparsed (congrArg Node.ref? href)
    change n.resolved s = .expr (.superRef ref) at href
    rw [href] at hforget
    subst hforget
    exact ⟨hnamed, hd.trans (hs.depth?_reserved (.inr hnamed))⟩

namespace Regime

variable {R : Regime} {s : Store} {env : Env} {p : Surroundings}

/-- Wherever a method was found, what lies above its class begins with the superclass. -/
theorem Inv.binds_superclass (hs : R.Inv s) {i : InstanceId} (hi : i.index < s.instances.size) {c : ClassId}
    {above : List ClassId} (h : R.Binds s i c above) :
    c.index < s.classes.size ∧ above.head? = s.superclass? c := by
  have hline : ∃ (d : ClassId) (below : List ClassId), d.index < s.classes.size ∧ s.line d = below ++ c :: above := by
    cases h with
    | ofInstance below hl => exact ⟨_, below, hs.classes i hi, hl⟩
    | ofSuper env p ref k below _ _ hsuper _ hl => exact ⟨k, below, hs.lookup? hsuper, hl⟩
  obtain ⟨d, below, hd, hl⟩ := hline
  exact ⟨hs.lineages.lt_size hd (hl ▸ List.mem_append_right _ List.mem_cons_self),
    congrArg List.head? (hs.lineages.lineage_eq hl).symm⟩

/-- The frame of the nearest implementation, and what the frames before it do not know. -/
theorem Follows.home_lookup (henv : R.Follows s env p) (hplain : ∀ f, R.follows s f none → s.PlainFrame f) {k : Nat}
    (hk : p.home? = some k) :
    ∃ inner f outer cls, env = inner ++ f :: outer ∧ inner.length = k ∧ p[k]? = some (some cls) ∧
      R.follows s f (some cls) ∧ ∀ x found, x = "self" ∨ x = "super" → s.own? f x = some found →
        s.lookup? env x = some found ∧ s.lookup? (f :: outer) x = some found := by
  obtain ⟨inner, f, outer, cls, rfl, hlength, hcls, hf, hinner⟩ := henv.home hk
  refine ⟨inner, f, outer, cls, rfl, hlength, hcls, hf, fun x found hx hown => ?_⟩
  have hhere : s.lookup? (f :: outer) x = some found := by
    unfold Store.lookup?
    rw [List.findSome?_cons, hown]
  refine ⟨?_, hhere⟩
  unfold Store.lookup?
  rw [findSome?_append_of_none fun g hg => (hplain g (hinner g hg)).own?_eq_none hx]
  exact hhere

end Regime

/-- Code that does not touch `self` and `super`.  The frames of implementations are those of methods. -/
def Regime.methods (code : List Place) : Regime where
  kept x := x = "self" ∨ x = "super"
  free := IsName
  ok a := a ∈ code ∧ a.WellPlaced
  follows s f l := match l with
    | none => s.PlainFrame f
    | some _ => s.OfMethod f
  exempt _ _ := False
  exemptMethod _ _ := False
  implements _ _ _ := True
  inv s := s.PlainFrame .globals
  stable _ _ := True

namespace Regime

variable {code : List Place} {s t : Store} {env : Env} {p : Surroundings} {m : Machine}

private theorem follows_methods_mono (h : s.Later (methods code).kept t) {f : FrameId} (hf : f.index < s.frames.size)
    {l : Option String} (hl : (methods code).follows s f l) : (methods code).follows t f l := by
  match l, hl with
  | none, hl => exact hl.mono (.inl rfl) (.inr rfl) h hf
  | some _, .inl ⟨i, c, hl⟩ => exact .inl ⟨i, c, hl.mono (.inl rfl) (.inr rfl) h⟩
  | some _, .inr ⟨k, hl⟩ => exact .inr ⟨k, hl.mono (.inl rfl) (.inr rfl) h hf⟩

/-- A frame is made for its scope. -/
private theorem makes_methods (hs : (methods code).Inv s) {new : Frame} {l : Option String}
    (h : (methods code).Makes s new l) :
    (methods code).follows { s with frames := s.frames.push new } ⟨s.frames.size⟩ l := by
  cases h with
  | plain hb =>
    have hnone := fun x (hx : ¬ IsName x) => Option.not_isSome_iff_eq_none.1 fun hsome => hx (hb x hsome)
    exact Store.plainFrame_push (hnone _ not_isName_self) (hnone _ not_isName_super)
  | @copy f _ hne hlt hl =>
    have hframe : Store.frame { s with frames := s.frames.push (s.frame f) } ⟨s.frames.size⟩ = s.frame f := by
      rw [Store.frame_push, if_pos rfl]
    match l, hl with
    | none, hl => exact hl.copy hframe
    | some _, .inl ⟨i, c, hl⟩ => exact .inl ⟨i, c, hl.copy hframe rfl⟩
    | some _, .inr ⟨k, hl⟩ => exact .inr ⟨k, hl.copy hframe⟩
  | @bound i c above name hi hname hbinds =>
    obtain ⟨hc, habove⟩ := hs.binds_superclass hi hbinds
    rw [habove]
    exact .inl ⟨i, c, Store.methodFrame_push hc i⟩
  | @static k c name hk hname => exact .inr ⟨k, Store.staticFrame_push s k⟩

instance : (methods code).Lawful where
  not_kept := IsName.not_reserved
  binds h x hx := h.2.names x hx
  implements_of_ok _ _ _ := trivial
  stable_refl _ := trivial
  stable_trans _ _ := trivial
  follows_mono _ h hf hl := follows_methods_mono h hf hl
  implements_mono _ _ _ := trivial
  exempt_mono _ h := h
  exemptMethod_mono _ h := h
  exempt_bound _ _ h := h
  makes hs h := makes_methods hs h
  change hs h := ⟨hs.extra.mono (.inl rfl) (.inr rfl) (h.later (K := (methods code).kept) IsName.not_reserved)
    hs.globals,
    trivial⟩

private theorem Follows.methodFrame (henv : (methods code).Follows s env p) {k : Nat} (hk : p.home? = some k) :
    ∃ inner f outer, env = inner ++ f :: outer ∧ inner.length = k ∧ s.OfMethod f ∧
      ∀ x found, x = "self" ∨ x = "super" → s.own? f x = some found →
        s.lookup? env x = some found ∧ s.lookup? (f :: outer) x = some found := by
  obtain ⟨inner, f, outer, cls, henv, hlength, -, hf, hlookup⟩ := henv.home_lookup (fun _ => id) hk
  exact ⟨inner, f, outer, henv, hlength, hf, hlookup⟩

end Regime

/-! ### The law of dispatch -/

/-- The store after a node has been evaluated. -/
def Node.after (n : Nat) (env : Env) (m : Machine) : Node → Store
  | .expr e => (((interp n).eval env e).result m).2.store
  | .stmt t => (((interp n).exec env t).result m).2.store

/-- How methods are found where a node is evaluated. -/
structure Dispatch (code : List Place) (env : Env) (node : Node) (m : Machine) : Prop where
  /-- An instance without a property of the name has the method of the nearest class. -/
  instanceMethod : ∀ object name n i m₁ c f, node = .expr (.get object name) →
    ((interp n).eval env object).result m = (.ok (.object i), m₁) →
    (m₁.store.object i).properties.has name.text = false →
    m₁.store.Nearest (fun _ => true) name.text (m₁.store.line (m₁.store.object i).cls) c f →
    ∃ new, Finds (n + 1) env (.get object name) m (m₁.withFrame new) f m₁.nextFrame ∧
      (m₁.withFrame new).store.MethodFrame m₁.nextFrame i c
  /-- A class has the static method of the nearest class. -/
  classMethod : ∀ object name n k m₁ c f, node = .expr (.get object name) → Run.isSuper object = false →
    ((interp n).eval env object).result m = (.ok (.classRef k), m₁) →
    m₁.store.Nearest Method.isStatic name.text (m₁.store.line k) c f →
    ∃ new, Finds (n + 1) env (.get object name) m (m₁.withFrame new) f m₁.nextFrame ∧
      (m₁.withFrame new).store.StaticFrame m₁.nextFrame k
  /-- In an implementation `self` is what the frame of the method binds to it. -/
  self : ∀ ref p k, node = .expr (.selfRef ref) → ⟨node, p⟩ ∈ code → p.home? = some k →
    ∃ f, env[k]? = some f ∧ m.store.OfMethod f ∧
      ∀ v n, (m.store.frame f).bindings.get? "self" = some v →
        ((interp (n + 1)).eval env (.selfRef ref)).result m = (.ok v, m)
  /-- In an implementation a send to `super` goes to the nearest class above the one that defines the running
  method. -/
  superMethod : ∀ ref name p k, node = .expr (.get (.superRef ref) name) → ⟨.expr (.superRef ref), p⟩ ∈ code →
    p.home? = some k → ∃ f, env[k]? = some f ∧ m.store.OfMethod f ∧
      ∀ i c above n, m.store.MethodFrame f i c → m.store.superclass? c = some above →
        (∀ d g, m.store.Nearest (fun _ => true) name.text (m.store.line above) d g →
          d ∈ (m.store.classOf c).lineage ∧ d.index < c.index ∧
          ∃ new, Finds (n + 2) env (.get (.superRef ref) name) m (m.withFrame new) g m.nextFrame ∧
            (m.withFrame new).store.MethodFrame m.nextFrame i d) ∧
        (name.text = "init" → (∀ d ∈ m.store.line above, (m.store.classOf d).methods.get? "init" = none) →
          ∀ args, ((interp (n + 3)).eval env (.call (.get (.superRef ref) name) args)).result m = (do
            let _ ← Run.evalAll (interp (n + 2)) env args
            return Value.object i).result m)
  /-- The frame of a method stays what it is. -/
  kept : ∀ n f i c, m.store.MethodFrame f i c → (node.after n env m).MethodFrame f i c
  /-- A block literal captures frames of the same methods. -/
  captured : ∀ returns params body n, node = .expr (.block returns params body) →
    ∃ copies m', ((interp (n + 1)).eval env (.block returns params body)).result m =
        (.ok (.block ⟨params, body, copies⟩), m') ∧
      List.Forall₂ (fun f f' => ∀ i c, m.store.MethodFrame f i c → m'.store.MethodFrame f' i c) env copies

namespace Regime

variable {code : List Place} {env : Env} {p : Surroundings} {node : Node} {m : Machine}

section Law

variable (hs : (methods code).Inv m.store) (henv : (methods code).Follows m.store env p)
  (hok : ∀ a ∈ node.places p, (methods code).ok a)

include hs henv hok

/-- Evaluating the object of a member keeps the regime. -/
private theorem object_kept {object : Expr} {name : Name} (hnode : node = .expr (.get object name)) {n : Nat}
    {v : Value}
    {m₁ : Machine} (h : ((interp n).eval env object).result m = (.ok v, m₁)) :
    (methods code).Inv m₁.store ∧ (methods code).Good m₁.store v := by
  subst hnode
  obtain ⟨-, hobject⟩ := List.forall_mem_cons.1 hok
  have hkeeps := (agree_interp (R := methods code) (fun _ _ => id) n).eval_good henv hobject
  obtain ⟨r, m', hr, -, hinv, -, hgood⟩ := hkeeps hs m rfl
  obtain ⟨rfl, rfl⟩ := Prod.mk.inj (h.symm.trans hr)
  exact ⟨hinv, hgood v rfl⟩

private theorem dispatch_instance {object : Expr} {name : Name} (hnode : node = .expr (.get object name)) {n : Nat}
    {i : InstanceId} {m₁ : Machine} (h : ((interp n).eval env object).result m = (.ok (.object i), m₁))
    (hx : (m₁.store.object i).properties.has name.text = false) {c : ClassId} {f : Closure}
    (hf : m₁.store.Nearest (fun _ => true) name.text (m₁.store.line (m₁.store.object i).cls) c f) :
    ∃ new, Finds (n + 1) env (.get object name) m (m₁.withFrame new) f m₁.nextFrame ∧
      (m₁.withFrame new).store.MethodFrame m₁.nextFrame i c := by
  obtain ⟨hs₁, hi⟩ := object_kept hs henv hok hnode h
  have hc : c.index < m₁.store.classes.size := hs₁.lineages.lt_size (hs₁.classes i hi) hf.mem_line
  refine ⟨Store.boundFrame i (m₁.store.superclass? c), .ofValue ?_, Store.methodFrame_push hc i⟩
  rw [result_get_of_value h]
  change (Run.instanceMember i name.text).result m₁ = _
  rw [result_instanceMember, hf.member? hs₁.lineages hx]
  rfl

private theorem dispatch_class {object : Expr} {name : Name} (hnode : node = .expr (.get object name))
    (hsuper : Run.isSuper object = false) {n : Nat} {k : ClassId} {m₁ : Machine}
    (h : ((interp n).eval env object).result m = (.ok (.classRef k), m₁)) {c : ClassId} {f : Closure}
    (hf : m₁.store.Nearest Method.isStatic name.text (m₁.store.line k) c f) :
    ∃ new, Finds (n + 1) env (.get object name) m (m₁.withFrame new) f m₁.nextFrame ∧
      (m₁.withFrame new).store.StaticFrame m₁.nextFrame k := by
  obtain ⟨hs₁, -⟩ := object_kept hs henv hok hnode h
  refine ⟨⟨[("self", .classRef k)], none⟩, .ofValue ?_, Store.staticFrame_push m₁.store k⟩
  rw [result_get_of_value h, hsuper]
  change (Run.classMember k name.text).result m₁ = _
  rw [result_classMember, hf.findMethod? hs₁.lineages]
  rfl

omit hs in
private theorem dispatch_self {ref : Ref} (hnode : node = .expr (.selfRef ref)) {k : Nat} (hk : p.home? = some k) :
    ∃ f, env[k]? = some f ∧ m.store.OfMethod f ∧
      ∀ v n, (m.store.frame f).bindings.get? "self" = some v →
        ((interp (n + 1)).eval env (.selfRef ref)).result m = (.ok v, m) := by
  subst hnode
  obtain ⟨⟨-, hplaced⟩, -⟩ := List.forall_mem_cons.1 hok
  obtain ⟨htext, hdepth⟩ := hplaced.self ref rfl
  obtain ⟨inner, f, outer, rfl, rfl, hf, hlookup⟩ := henv.methodFrame hk
  refine ⟨f, by simp, hf, fun v n hv => ?_⟩
  have hown : m.store.own? f "self" = some (.value v) := by
    unfold Store.own?
    rw [hv]
  change (Run.readName (Run.refEnv (inner ++ f :: outer) ref) ref.name.text).result m = _
  rw [Run.refEnv, hdepth.trans hk, htext]
  dsimp only
  rw [ancestor_append]
  exact result_readName_value (hlookup _ _ (.inl rfl) hown).2

omit hs in
/-- What a send to `super` comes to. -/
private theorem result_super {ref : Ref} {name : Name} (hnode : node = .expr (.get (.superRef ref) name)) {k : Nat}
    (hk : p.home? = some k) : ∃ f, env[k]? = some f ∧ m.store.OfMethod f ∧
      ∀ i c above n, m.store.MethodFrame f i c → m.store.superclass? c = some above →
        ((interp (n + 2)).eval env (.get (.superRef ref) name)).result m =
          (Run.ofSuper (m.store.findMethod? (fun _ => true) name.text (m.store.line above)) above name.text
            (.object i)).result m := by
  subst hnode
  obtain ⟨-, hobject⟩ := List.forall_mem_cons.1 hok
  obtain ⟨htext, hdepth⟩ := (hobject _ (Node.mem_places (.expr (.superRef ref)) p)).2.super ref rfl
  obtain ⟨inner, f, outer, rfl, rfl, hf, hlookup⟩ := henv.methodFrame hk
  refine ⟨f, by simp, hf, fun i c above n hframe hc => ?_⟩
  have hknows := hframe.knows
  rw [hc] at hknows
  have hsuper : ((interp (n + 1)).eval (inner ++ f :: outer) (.superRef ref)).result m =
      (.ok (.classRef above), m) := by
    change (Run.readName (Run.refEnv (inner ++ f :: outer) ref) ref.name.text).result m = _
    rw [Run.refEnv, hdepth.trans hk, htext]
    dsimp only
    rw [ancestor_append]
    exact result_readName_value (hlookup _ _ (.inr rfl) hknows.own?_super).2
  rw [result_get_of_value hsuper]
  change Run.result (Run.superMember (inner ++ f :: outer) above name.text) m = _
  rw [result_superMember, Run.result_bind, result_readName_value (hlookup _ _ (.inl rfl) hknows.own?_self).1]

/-- A send to `super` finds the nearest method from the superclass on, or the built-in `init`. -/
private theorem dispatch_super {ref : Ref} {name : Name} (hnode : node = .expr (.get (.superRef ref) name)) {k : Nat}
    (hk : p.home? = some k) : ∃ f, env[k]? = some f ∧ m.store.OfMethod f ∧
      ∀ i c above n, m.store.MethodFrame f i c → m.store.superclass? c = some above →
        (∀ d g, m.store.Nearest (fun _ => true) name.text (m.store.line above) d g →
          d ∈ (m.store.classOf c).lineage ∧ d.index < c.index ∧
          ∃ new, Finds (n + 2) env (.get (.superRef ref) name) m (m.withFrame new) g m.nextFrame ∧
            (m.withFrame new).store.MethodFrame m.nextFrame i d) ∧
        (name.text = "init" → (∀ d ∈ m.store.line above, (m.store.classOf d).methods.get? "init" = none) →
          ∀ args, ((interp (n + 3)).eval env (.call (.get (.superRef ref) name) args)).result m = (do
            let _ ← Run.evalAll (interp (n + 2)) env args
            return Value.object i).result m) := by
  obtain ⟨f, hf, hmethod, hresult⟩ := result_super henv hok hnode hk
  refine ⟨f, hf, hmethod, fun i c above n hframe hc => ⟨fun d g hg => ?_, fun hinit hnone args => ?_⟩⟩
  · -- the superclass and its line make up the lineage
    have hlineage : (m.store.classOf c).lineage = m.store.line above := by
      unfold Store.superclass? at hc
      cases hl : (m.store.classOf c).lineage with
      | nil =>
        rw [hl] at hc
        cases hc
      | cons a rest =>
        rw [hl] at hc
        obtain rfl : a = above := Option.some.inj hc
        exact congrArg (List.cons a) (hs.lineages c a rest hl).2.symm
    have hd : d ∈ (m.store.classOf c).lineage := hlineage ▸ hg.mem_line
    have hlt := hs.lineages.index_lt hd
    refine ⟨hd, hlt, Store.boundFrame i (m.store.superclass? d), .ofValue ?_,
      Store.methodFrame_push (Nat.lt_trans hlt hframe.lt_size) i⟩
    rw [hresult i c above n hframe hc, hg.findMethod? hs.lineages]
    rfl
  · have hfind : m.store.findMethod? (fun _ => true) name.text (m.store.line above) = none := by
      refine Store.findMethod?_eq_none.2 fun d hd method hmethod => ?_
      rw [hinit, hnone d hd] at hmethod
      cases hmethod
    have hget := hresult i c above n hframe hc
    rw [hfind, hinit] at hget
    rw [result_call_of_value hget]
    rfl

omit hok in
/-- A block literal captures frames of the same methods. -/
private theorem dispatch_captured (returns : Option TypeExpr) (params : List Param) (body : List Stmt) (n : Nat) :
    ∃ copies m', ((interp (n + 1)).eval env (.block returns params body)).result m =
        (.ok (.block ⟨params, body, copies⟩), m') ∧
      List.Forall₂ (fun f f' => ∀ i c, m.store.MethodFrame f i c → m'.store.MethodFrame f' i c) env copies := by
  obtain ⟨frames, rfl, hframes⟩ := henv.isChain
  obtain ⟨copies, store, hrun, hcopied⟩ := Store.run_snapshot hframes
  refine ⟨copies ++ [.globals], { m with store := store }, ?_, hcopied.methodFrame hs.globals⟩
  rw [interp, evaluators, result_blockLiteral, hrun]

/-- Evaluating a node keeps the frames of methods. -/
private theorem dispatch_kept (n : Nat) {f : FrameId} {i : InstanceId} {c : ClassId}
    (hf : m.store.MethodFrame f i c) :
    (node.after n env m).MethodFrame f i c := by
  have hagree := agree_interp (R := methods code) (fun _ _ => id) n
  cases node with
  | expr e =>
    obtain ⟨r, m', hr, -, -, hafter, -⟩ := hagree.eval henv hok hs m rfl
    change (((interp n).eval env e).result m).2.store.MethodFrame f i c
    rw [hr]
    exact hf.mono (.inl rfl) (.inr rfl) hafter.later
  | stmt t =>
    obtain ⟨r, m', hr, -, -, hafter, -⟩ := hagree.exec henv hok hs m rfl
    change (((interp n).exec env t).result m).2.store.MethodFrame f i c
    rw [hr]
    exact hf.mono (.inl rfl) (.inr rfl) hafter.later

/-- The law of dispatch holds under the regime. -/
private theorem dispatch (hcode : ∀ a ∈ code, a.WellPlaced) : Dispatch code env node m where
  instanceMethod _ _ _ _ _ _ _ hnode h hx hf := dispatch_instance hs henv hok hnode h hx hf
  classMethod _ _ _ _ _ _ _ hnode hsuper h hf := dispatch_class hs henv hok hnode hsuper h hf
  self ref p' k hnode hp' hk := by
    -- wherever the node stands in the code, the nearest implementation is as far away
    have hhere := ((hok _ (node.mem_places p)).2.self ref hnode).2
    have hthere := ((hcode _ hp').self ref hnode).2
    exact dispatch_self henv hok hnode (hhere.symm.trans (hthere.trans hk))
  superMethod ref name p' k hnode hp' hk := by
    have hplace : ⟨.expr (.superRef ref), p⟩ ∈ node.places p := by
      rw [hnode]
      exact List.mem_cons_of_mem _ (Node.mem_places (.expr (.superRef ref)) p)
    have hhere := ((hok _ hplace).2.super ref rfl).2
    have hthere := ((hcode _ hp').super ref rfl).2
    exact dispatch_super hs henv hok hnode (hhere.symm.trans (hthere.trans hk))
  kept n _ _ _ hf := dispatch_kept hs henv hok n hf
  captured returns params body n _ := dispatch_captured hs henv returns params body n

end Law

end Regime

/-- A new session can be run under the regime of methods. -/
theorem Regime.ready_methods (code : List Place) : (Regime.methods code).Ready Store.initial := by
  have hplain : ∀ f, f = FrameId.globals ∨ f = ⟨1⟩ → Store.initial.PlainFrame f := by
    rintro f (rfl | rfl)
    · exact ⟨rfl, rfl, rfl⟩
    · exact ⟨rfl, rfl, rfl⟩
  exact ⟨Regime.inv_initial (hplain _ (.inl rfl)), .scope nofun (by decide) (hplain _ (.inr rfl)) .globals⟩

/-- Throughout a session methods are found by the law of dispatch. -/
theorem methods_dispatch (input : List String) (clock : Nat → Float) (threshold : Nat) (sources : List String) :
    let session := Session.initial (Machine.initial input clock threshold)
    session.Always sources (Dispatch (session.code sources)) := by
  intro session
  let R := Regime.methods (session.code sources)
  have htop : session.AtTop := ⟨[], rfl, List.forall_mem_nil _⟩
  have hcode : ∀ a ∈ session.code sources, a.WellPlaced := by
    intro a ha
    obtain ⟨site, hsited, rfl⟩ := htop.sited_code sources a ha
    exact hsited.wellPlaced
  exact Session.always_of_regime (R := R) (fun _ _ => id) (fun hs henv hok => Regime.dispatch hs henv hok hcode)
    (Regime.ready_methods _) fun a ha => ⟨ha, hcode a ha⟩

end ObjScript
