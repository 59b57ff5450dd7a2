import ObjScript.Proofs.Scope.Members
import ObjScript.Proofs.Session.Dispatch
import ObjScript.Proofs.Store.Properties

/-!
# Names of properties in methods

In a method of an orderly program the name of a property stands for the property of the running instance, as it would
after `self` (`LiveProperties`).  The law holds wherever the store is tidy and its frames know the class of their
method (`Regime.live`).  The classes themselves are declared and implemented outside of this regime, at the top level.
-/

namespace ObjScript

/-! ### The regime -/

/-- The frame is that of a method of the class: it is bound to an instance of the class or of one below it, or to a
class. -/
def Store.OfClass (s : Store) (f : FrameId) (cls : String) : Prop :=
  (∃ i c, s.MethodFrame f i c ∧ c ∈ s.line (s.object i).cls ∧ (s.classOf c).name = cls ∧
    (s.superclass? c).isSome = true) ∨ ∃ k, s.StaticFrame f k

/-- The names that nothing but the interface of one of the classes binds, once the frame is made. -/
def Fixed (classes : List String) (x : String) : Prop :=
  (x = "self" ∨ x = "super") ∨ x ∈ rootClass :: classes

/-- The node is as the parser builds it, is no statement about a class, and binds no name of a class. -/
structure Node.Ordinary (stmts : List Stmt) (n : Node) : Prop where
  written : n.Written
  notClass : n.isClass = false
  binds : ∀ x ∈ n.binds, x ∉ rootClass :: declaredClasses stmts

/-- The sites of a program apart from its statements about classes. -/
def Regime.live (stmts : List Stmt) (code : List Site) : Regime where
  kept x := x = "self" ∨ x = "super"
  free x := IsName x ∧ x ∉ rootClass :: declaredClasses stmts
  ok a := ∃ site ∈ code, Sited (HasProperty stmts) (Node.Ordinary stmts) site ∧ site.place = a
  follows s f l := match l with
    | none => s.PlainFrame f
    | some cls => s.OfClass f cls
  exempt _ _ := False
  exemptMethod _ _ := False
  implements s c name := (s.classOf c).name = name ∧ (s.superclass? c).isSome = true
  inv := Store.Tidy (HasProperty stmts)
  stable s t := s.Later (Fixed (declaredClasses stmts)) t

namespace Regime

variable {stmts : List Stmt} {code : List Site} {s t : Store} {env : Env} {p : Surroundings} {f : FrameId}
  {i : InstanceId}

private theorem ok_live_wellPlaced {a : Place} (h : (live stmts code).ok a) : a.WellPlaced := by
  obtain ⟨site, -, hsited, rfl⟩ := h
  exact (hsited.imp fun _ hn => hn.written).wellPlaced

/-- A place of the code is a node of the program as the analysis leaves it. -/
private theorem ok_live_node {a : Place} (h : (live stmts code).ok a) :
    a.node.isClass = false ∧ ∀ x ∈ a.node.binds, IsName x ∧ x ∉ rootClass :: declaredClasses stmts := by
  have hplaced := ok_live_wellPlaced h
  obtain ⟨site, -, ⟨n, scopes, hn, -, hnode⟩, rfl⟩ := h
  have hforget : site.node.forget = n := hnode ▸ Node.forget_resolved (fun k hk => (hn.written k hk).1) scopes
  refine ⟨?_, fun x hx => ⟨hplaced.names x hx, hn.binds x ?_⟩⟩
  · change site.node.isClass = false
    rw [← Node.isClass_forget, hforget]
    exact hn.notClass
  · change x ∈ site.node.binds at hx
    rwa [← Node.binds_forget, hforget] at hx

private theorem follows_live_mono (hs : (live stmts code).Inv s) (h : s.Later (live stmts code).kept t)
    (hf : f.index < s.frames.size)
    {l : Option String} (hl : (live stmts code).follows s f l) : (live stmts code).follows t f l := by
  match l, hl with
  | none, hl => exact hl.mono (.inl rfl) (.inr rfl) h hf
  | some _, .inl ⟨i, c, hl, hline, hname, hsuper⟩ =>
    have hi := hs.receivers f i hl.knows.receiver
    refine .inl ⟨i, c, hl.mono (.inl rfl) (.inr rfl) h, ?_, (h.name c hl.lt_size).trans hname, ?_⟩
    · rw [h.cls i hi, h.line (hs.classes i hi)]
      exact hline
    · rw [Store.superclass?_mono h hl.lt_size]
      exact hsuper
  | some _, .inr ⟨k, hl⟩ => exact .inr ⟨k, hl.mono (.inl rfl) (.inr rfl) h hf⟩

/-- The class of a method that is bound to an instance lies on the line of the instance's class. -/
private theorem Inv.binds_line (hs : (live stmts code).Inv s) {c : ClassId} {above : List ClassId}
    (h : (live stmts code).Binds s i c above) : c ∈ s.line (s.object i).cls := by
  cases h with
  | ofInstance below hl =>
    rw [hl]
    exact List.mem_append_right _ List.mem_cons_self
  | ofSuper env p ref k below henv hok hsuper hself hl =>
    obtain ⟨htext, hdepth⟩ := (ok_live_wellPlaced hok).super ref rfl
    cases hk : p.home? with
    | none =>
      -- outside of implementations no frame knows `self`
      obtain ⟨f, hf, hown⟩ := List.exists_of_findSome?_eq_some hself
      have hplain : s.PlainFrame f := by
        rcases henv.plain hk f hf with rfl | hf
        · exact hs.extra.globals
        · exact hf
      rw [hplain.own?_eq_none (.inl rfl)] at hown
      cases hown
    | some d =>
      obtain ⟨inner, f, outer, cls, rfl, rfl, -, hf, hlookup⟩ := henv.home_lookup (fun _ => id) hk
      rcases hf with ⟨j, b, hframe, hline, -, hb⟩ | ⟨b, hframe⟩
      · obtain ⟨a, ha⟩ := Option.isSome_iff_exists.1 hb
        have hknows := hframe.knows
        rw [ha] at hknows
        have hi := (hlookup _ _ (.inl rfl) hknows.own?_self).1
        rw [hself] at hi
        cases hi
        have hk := (hlookup _ _ (.inr rfl) hknows.own?_super).2
        rw [Run.refEnv, hdepth, ‹p.home? = _›, htext] at hsuper
        dsimp only at hsuper
        rw [ancestor_append, hk] at hsuper
        cases hsuper
        -- the superclass and its line belong to the line of the instance's class
        have habove : k ∈ s.line b := List.mem_cons_of_mem _ (List.mem_of_mem_head? ha)
        refine hs.lineages.line_subset hline (hs.lineages.line_subset habove ?_)
        rw [hl]
        exact List.mem_append_right _ List.mem_cons_self
      · have hi := (hlookup _ _ (.inl rfl) hframe.own?_self).1
        rw [hself] at hi
        cases hi

/-- A frame is made for its scope. -/
private theorem makes_live (hs : (live stmts code).Inv s) {new : Frame} {l : Option String}
    (h : (live stmts code).Makes s new l) :
    (live stmts code).follows { s with frames := s.frames.push new } ⟨s.frames.size⟩ l := by
  cases h with
  | plain hb =>
    have hnone := fun x (hx : ¬ IsName x) => Option.not_isSome_iff_eq_none.1 fun hsome => hx (hb x hsome).1
    exact Store.plainFrame_push (hnone _ not_isName_self) (hnone _ not_isName_super)
  | @copy f _ hne hlt hl =>
    have hframe : Store.frame { s with frames := s.frames.push (s.frame f) } ⟨s.frames.size⟩ = s.frame f := by
      rw [Store.frame_push, if_pos rfl]
    match l, hl with
    | none, hl => exact hl.copy hframe
    | some _, .inl ⟨i, c, hl, hclass⟩ => exact .inl ⟨i, c, hl.copy hframe rfl, hclass⟩
    | some _, .inr ⟨k, hl⟩ => exact .inr ⟨k, hl.copy hframe⟩
  | @bound i c above name hi hname hbinds =>
    obtain ⟨hc, habove⟩ := hs.binds_superclass hi hbinds
    rw [habove]
    exact .inl ⟨i, c, Store.methodFrame_push hc i, hs.binds_line hbinds, hname⟩
  | @static k c name hk hname => exact .inr ⟨k, Store.staticFrame_push s k⟩

/-- No frame that is made hides a property. -/
private theorem makes_live_shown (hs : (live stmts code).Inv s) {new : Frame} {l : Option String}
    (h : (live stmts code).Makes s new l) (hi : new.receiver = some i) : i.index < s.instances.size ∧
      ∀ x, s.Initial (s.object i).cls x → new.bindings.has x = false := by
  cases h with
  | plain _ => cases hi
  | copy hne hlt hl => exact hs.extra.shown_lt hs.receivers hi
  | @bound j c above name hj hname hbinds =>
    cases hi
    refine ⟨hj, fun x hx => ?_⟩
    obtain ⟨d, -, hd⟩ := hx
    have hx := (hs.extra.names d x hd).not_reserved
    rw [← Bool.not_eq_true, ← Bindings.mem_keys]
    intro hmem
    rcases List.mem_cons.1 hmem with rfl | hmem
    · exact hx (.inl rfl)
    · cases habove : above.head? with
      | none =>
        rw [habove] at hmem
        cases hmem
      | some k =>
        rw [habove] at hmem
        exact hx (.inr (List.mem_singleton.1 hmem))
  | static _ _ => cases hi

instance : (live stmts code).Lawful where
  not_kept h := h.1.not_reserved
  binds h := (ok_live_node h).2
  implements_of_ok h := absurd (ok_live_node h).1 nofun
  stable_refl := .refl
  stable_trans h h' := h.trans h'
  follows_mono hs h hf hl := follows_live_mono hs h hf hl
  implements_mono h hc := fun ⟨hname, hsuper⟩ =>
    ⟨(h.name _ hc).trans hname, (congrArg Option.isSome (Store.superclass?_mono h hc)).trans hsuper⟩
  exempt_mono _ h := h
  exemptMethod_mono _ h := h
  exempt_bound _ _ h := h
  makes hs h := makes_live hs h
  change := by
    intro s t hs h
    refine ⟨?_, h.later fun hx hfixed => ?_⟩
    · cases h with
      | frame hmakes =>
        exact hs.extra.pushFrame hs.lineages hs.receivers hs.classes fun i hi => makes_live_shown hs hmakes hi
      | arrays arrays => exact hs.extra.arrays hs.lineages hs.receivers hs.classes arrays
      | allocate hc => exact hs.extra.allocate hs.lineages hs.receivers hs.classes hc
      | define _ hx => exact hs.extra.define hs.lineages hs.receivers hs.classes _ hx.1 _
      | property i x v => exact hs.extra.putProperty hs.lineages hs.receivers hs.classes i x v
      | newClass hok => exact absurd (ok_live_node hok).1 nofun
      | implement hok => exact absurd (ok_live_node hok).1 nofun
    · exact hfixed.elim hx.1.not_reserved hx.2

end Regime

/-! ### The law of properties -/

/-- The frame is that of a method of the class, and the method runs on the instance. -/
def Store.RunsOn (s : Store) (f : FrameId) (cls : String) (i : InstanceId) : Prop :=
  ∃ c, s.MethodFrame f i c ∧ c ∈ s.line (s.object i).cls ∧ (s.classOf c).name = cls

/-- The nearest implementation is that of the class and lies `k` scopes out, and no nearer scope declares the name. -/
structure Unhidden (σ : List Scope) (k : Nat) (cls x : String) : Prop where
  home : (surroundings σ).home? = some k
  owner : (surroundings σ)[k]? = some (some cls)
  nearer : ∀ scope ∈ σ.take k, x ∉ scope.names

/-- The word `self`, as the analysis leaves it `k` scopes inside of an implementation. -/
def selfAt (k : Nat) (pos : Pos) : Expr :=
  .selfRef ⟨⟨"self", pos⟩, some k⟩

/-- The machine with another value of a property. -/
def Machine.withProperty (m : Machine) (i : InstanceId) (x : String) (v : Value) : Machine :=
  { m with store := m.store.putProperty i x v }

/-- What the names of properties stand for where a node is evaluated. -/
structure LiveProperties (stmts : List Stmt) (code : List Site) (env : Env) (node : Node) (m : Machine) : Prop where
  /-- A reference is evaluated at one of its sites: there is a frame for each scope, and the frame of an
  implementation is that of a method of the class, which runs on an instance or on a class. -/
  placed : ∀ ref, node.ref? = some ref → ∃ σ, ⟨node, σ⟩ ∈ code ∧ env.length = σ.length + 1 ∧
    ∀ (k : Nat) cls, (surroundings σ)[k]? = some (some cls) → ∃ f, env[k]? = some f ∧
      ((∃ i, m.store.RunsOn f cls i) ∨ ∃ c, m.store.StaticFrame f c)
  /-- In a method that runs on an instance the name of a property gives the current value, as after `self`. -/
  read : ∀ ref σ (k : Nat) cls f i, node = .expr (.variable ref) → ⟨node, σ⟩ ∈ code → Unhidden σ k cls ref.name.text →
    HasProperty stmts cls ref.name.text → env[k]? = some f → m.store.RunsOn f cls i →
    ∃ v, (m.store.object i).properties.get? ref.name.text = some v ∧
      ∀ n pos, ((interp (n + 1)).eval env (.variable ref)).result m = (.ok v, m) ∧
        ((interp (n + 2)).eval env (.get (selfAt k pos) ref.name)).result m = (.ok v, m)
  /-- An assignment to the name of a property sets the property of the instance and leaves the frames as they are; it
  does what an assignment after `self` does. -/
  write : ∀ target op pos value σ (k : Nat) cls f i, node = .expr (.assign target op pos value) → ⟨node, σ⟩ ∈ code →
    Unhidden σ k cls target.name.text → HasProperty stmts cls target.name.text → env[k]? = some f →
    m.store.RunsOn f cls i →
    (∀ n v m₁, op = .set → ((interp n).eval env value).result m = (.ok v, m₁) →
      ((interp (n + 1)).eval env (.assign target op pos value)).result m =
          (.ok v, m₁.withProperty i target.name.text v) ∧
        ((m₁.withProperty i target.name.text v).store.object i).properties.get? target.name.text = some v ∧
        (m₁.withProperty i target.name.text v).store.frames = m₁.store.frames) ∧
    ∀ n pos', ((interp (n + 2)).eval env (.assign target op pos value)).result m =
      ((interp (n + 2)).eval env (.set (selfAt k pos') target.name op pos value)).result m

namespace Regime

variable {stmts : List Stmt} {code : List Site} {m : Machine} {env : Env} {p : Surroundings} {f : FrameId}
  {i : InstanceId} {cls : String} {k : Nat}

/-- Going outward to a frame of the chain. -/
private theorem ancestor_of_getElem? (h : env[k]? = some f) : ∃ outer, env.ancestor k = f :: outer := by
  obtain ⟨hlt, rfl⟩ := List.getElem?_eq_some_iff.1 h
  have hlength : (env.take k).length = k := List.length_take_of_le (Nat.le_of_lt hlt)
  refine ⟨env.drop (k + 1), ?_⟩
  calc env.ancestor k = Env.ancestor (env.take k ++ env[k] :: env.drop (k + 1)) (env.take k).length := by
        rw [← List.drop_eq_getElem_cons hlt, List.take_append_drop, hlength]
    _ = env[k] :: env.drop (k + 1) := ancestor_append ..

/-- A chain has a frame for each scope. -/
private theorem Follows.frame_of_scope {R : Regime} {s : Store} (h : R.Follows s env p) {l : Option String}
    (hl : p[k]? = some l) : ∃ f, env[k]? = some f ∧ R.follows s f l := by
  induction h generalizing k with
  | globals => cases hl
  | @scope f _ _ _ _ _ hf _ ih =>
    cases k with
    | zero =>
      cases hl
      exact ⟨f, rfl, hf⟩
    | succ k => exact ih hl

/-- A method goes on running on its instance. -/
private theorem runsOn_after (hs : (live stmts code).Inv m.store) {t : Store} (h : (live stmts code).After m.store t)
    (hf : m.store.RunsOn f cls i) : t.RunsOn f cls i := by
  obtain ⟨c, hframe, hline, hname⟩ := hf
  have hi := hs.receivers f i hframe.knows.receiver
  refine ⟨c, hframe.mono (.inl rfl) (.inr rfl) h.later, ?_, (h.later.name c hframe.lt_size).trans hname⟩
  rw [h.later.cls i hi, h.later.line (hs.classes i hi)]
  exact hline

section Access

variable (hs : (live stmts code).Inv m.store) (hf : m.store.RunsOn f cls i)

include hs hf

/-- The class of the instance has the properties of the class of the method. -/
private theorem initial_of_runsOn {x : String} (hx : HasProperty stmts cls x) :
    m.store.Initial (m.store.object i).cls x := by
  obtain ⟨c, hframe, hline, hname⟩ := hf
  have hinitial := hs.extra.classes c hframe.lt_size x (hname.symm ▸ hx)
  exact hinitial.ofAbove hs.lineages hline

omit hs in
private theorem receiver_of_runsOn : (m.store.frame f).receiver = some i := by
  obtain ⟨c, hframe, -⟩ := hf
  exact hframe.knows.receiver

/-- The frame of the method shows the property of the instance. -/
private theorem shown_of_runsOn {x : String} (hx : HasProperty stmts cls x) :
    ∃ v, (m.store.object i).properties.get? x = some v ∧ m.store.member? i x = some (.value v) ∧
      m.store.own? f x = some (.value v) := by
  have hreceiver := receiver_of_runsOn hf
  exact hs.extra.own?_property (hs.receivers f i hreceiver) hreceiver (initial_of_runsOn hs hf hx)

/-- A reference to the property is read from the frame of the method. -/
private theorem result_read_property (hk : env[k]? = some f) {ref : Ref} (hdepth : ref.depth = some k)
    (hx : HasProperty stmts cls ref.name.text) : ∃ v, (m.store.object i).properties.get? ref.name.text = some v ∧
      (Run.read env ref).result m = (.ok v, m) ∧ (Run.instanceMember i ref.name.text).result m = (.ok v, m) := by
  obtain ⟨v, hv, hmember, hown⟩ := shown_of_runsOn hs hf hx
  obtain ⟨outer, houter⟩ := ancestor_of_getElem? hk
  refine ⟨v, hv, ?_, ?_⟩
  · refine result_readName_value ?_
    rw [Run.refEnv, hdepth]
    dsimp only
    rw [houter, Store.lookup?, List.findSome?_cons, hown]
  · rw [result_instanceMember, hmember]
    rfl

/-- An assignment to the property sets it on the instance. -/
private theorem result_assign_property (hk : env[k]? = some f) {ref : Ref} (hdepth : ref.depth = some k)
    (hx : HasProperty stmts cls ref.name.text) (v : Value) :
    (Run.assign env ref v).result m = (.ok (), m.withProperty i ref.name.text v) := by
  have hreceiver := receiver_of_runsOn hf
  have hdefine := hs.extra.define_eq (hs.receivers f i hreceiver) hreceiver (initial_of_runsOn hs hf hx) v
  obtain ⟨outer, houter⟩ := ancestor_of_getElem? hk
  have hassign : Run.assign env ref v = Run.modifyStore (·.define f ref.name.text v) := by
    unfold Run.assign
    rw [hdepth]
    dsimp only
    rw [houter]
    rfl
  rw [hassign]
  exact congrArg (fun store => (Except.ok (), { m with store := store })) hdefine

omit hs in
/-- The word `self` stands for the instance. -/
private theorem result_selfAt (hk : env[k]? = some f) (n : Nat) (pos : Pos) :
    ((interp (n + 1)).eval env (selfAt k pos)).result m = (.ok (.object i), m) := by
  obtain ⟨c, hframe, -⟩ := hf
  obtain ⟨outer, houter⟩ := ancestor_of_getElem? hk
  change (Run.readName (env.ancestor k) "self").result m = _
  refine result_readName_value ?_
  rw [houter, Store.lookup?, List.findSome?_cons, hframe.knows.own?_self]

/-- The value is evaluated, the old value is added to it if the assignment asks for that, and the property is set. -/
private theorem result_assigned_property (hk : env[k]? = some f) {ref : Ref} (hdepth : ref.depth = some k)
    (hx : HasProperty stmts cls ref.name.text) (op : AssignOp) (pos : Pos) {v : Value}
    (hv : (live stmts code).Good m.store v) :
    (Run.assigned op pos (Run.read env ref) v >>= fun w => Run.assign env ref w >>= fun _ => pure w).result m =
      (Run.assigned op pos (Run.instanceMember i ref.name.text) v >>= fun w =>
        Run.modifyStore (·.putProperty i ref.name.text w) >>= fun _ => pure w).result m := by
  -- both ways read the same old value
  have hsame : (Run.assigned op pos (Run.read env ref) v).result m =
      (Run.assigned op pos (Run.instanceMember i ref.name.text) v).result m := by
    obtain ⟨old, -, hread, hmember⟩ := result_read_property hs hf hk hdepth hx
    unfold Run.assigned
    split
    · rw [Run.result_bind, Run.result_bind, hread, hmember]
    · rfl
  have hkeeps : (live stmts code).Keeps (live stmts code).Good m.store (Run.assigned op pos (Run.read env ref) v)
      (Run.assigned op pos (Run.read env ref) v) := keeps_assigned keeps_read hv
  obtain ⟨r, m₁, hr, -, hs₁, hafter, -⟩ := hkeeps hs m rfl
  rw [Run.result_bind, Run.result_bind, ← hsame, hr]
  cases r with
  | error e => rfl
  | ok w =>
    have hassign := result_assign_property hs₁ (runsOn_after hs hafter hf) hk hdepth hx w
    change (Run.assign env ref w >>= fun _ => pure w).result m₁ = _
    rw [Run.result_bind, hassign]
    rfl

end Access

/-- At a site where nothing hides the property, the analysis has found it in the implementation. -/
private theorem depth_unhidden {site : Site} (hsite : Sited (HasProperty stmts) (Node.Ordinary stmts) site)
    {ref : Ref}
    (href : site.node.ref? = some ref) (hfree : Unhidden site.scopes k cls ref.name.text)
    (hx : HasProperty stmts cls ref.name.text) : ref.depth = some k := by
  obtain ⟨n, s, hn, hmatch, hnode⟩ := hsite
  rw [hnode] at href
  rw [Node.depth_resolved (hn.written n n.mem_below).1 href]
  refine hmatch.depth? hfree.home (fun cls' hcls' => ?_) hfree.nearer
  rw [hfree.owner] at hcls'
  cases hcls'
  exact hx

section Law

variable {node : Node} (hcode : ∀ site ∈ code, site.node.isClass = false →
  Sited (HasProperty stmts) (Node.Ordinary stmts) site)
  (hs : (live stmts code).Inv m.store) (henv : (live stmts code).Follows m.store env p)
  (hok : ∀ a ∈ node.places p, (live stmts code).ok a)

include hs henv hok

omit hs in
/-- The node is evaluated at one of its sites. -/
private theorem live_placed : ∃ σ, ⟨node, σ⟩ ∈ code ∧ env.length = σ.length + 1 ∧
    ∀ (k : Nat) cls, (surroundings σ)[k]? = some (some cls) → ∃ f, env[k]? = some f ∧
      ((∃ i, m.store.RunsOn f cls i) ∨ ∃ c, m.store.StaticFrame f c) := by
  obtain ⟨⟨_, σ⟩, hsite, -, hplace⟩ := hok _ (node.mem_places p)
  obtain ⟨rfl, rfl⟩ := Place.mk.inj hplace
  refine ⟨σ, hsite, henv.length.trans (congrArg (· + 1) (List.length_map _)), fun k cls hcls => ?_⟩
  obtain ⟨f, hf, hfollows⟩ := henv.frame_of_scope hcls
  refine ⟨f, hf, hfollows.imp ?_ id⟩
  rintro ⟨i, c, hframe, hline, hname, -⟩
  exact ⟨i, c, hframe, hline, hname⟩

/-- An assignment to the name of a property. -/
private theorem live_write {target : Ref} {op : AssignOp} {pos : Pos} {value : Expr}
    (hnode : node = .expr (.assign target op pos value)) (hdepth : target.depth = some k)
    (hx : HasProperty stmts cls target.name.text) (hk : env[k]? = some f) (hf : m.store.RunsOn f cls i) :
    (∀ n v m₁, op = .set → ((interp n).eval env value).result m = (.ok v, m₁) →
      ((interp (n + 1)).eval env (.assign target op pos value)).result m =
          (.ok v, m₁.withProperty i target.name.text v) ∧
        ((m₁.withProperty i target.name.text v).store.object i).properties.get? target.name.text = some v ∧
        (m₁.withProperty i target.name.text v).store.frames = m₁.store.frames) ∧
    ∀ n pos', ((interp (n + 2)).eval env (.assign target op pos value)).result m =
      ((interp (n + 2)).eval env (.set (selfAt k pos') target.name op pos value)).result m := by
  subst hnode
  obtain ⟨-, hvalue⟩ := List.forall_mem_cons.1 hok
  have heval := fun n => (agree_interp (R := live stmts code) (fun _ _ => id) n).eval_good henv hvalue hs m rfl
  refine ⟨fun n v m₁ hop hv => ?_, fun n pos' => ?_⟩
  · subst hop
    obtain ⟨r, m', hr, -, hs₁, hafter, -⟩ := heval n
    obtain ⟨rfl, rfl⟩ := Prod.mk.inj (hr.symm.trans hv)
    have hf₁ := runsOn_after hs hafter hf
    have hi := hs₁.receivers f i (receiver_of_runsOn hf₁)
    refine ⟨?_, ?_, rfl⟩
    · change ((interp n).eval env value >>= _).result m = _
      rw [Run.result_bind, hv]
      change (Run.assign env target v >>= fun _ => pure v).result m' = _
      rw [Run.result_bind, result_assign_property hs₁ hf₁ hk hdepth hx v]
      rfl
    · change Bindings.get? ((m'.store.putProperty i target.name.text v).object i).properties _ = _
      rw [Store.object_putProperty, if_pos ⟨rfl, hi⟩]
      exact Bindings.get?_put_self ..
  · have hself := result_selfAt hf hk n pos'
    obtain ⟨r, m₁, hr, -, hs₁, hafter, hgood⟩ := heval (n + 1)
    -- the word `self` comes first, and then both ways evaluate the value
    change ((interp (n + 1)).eval env value >>= _).result m =
      ((interp (n + 1)).eval env (selfAt k pos') >>= _).result m
    rw [Run.result_bind, Run.result_bind, hself, hr]
    change _ = ((interp (n + 1)).eval env value >>= _).result m
    rw [Run.result_bind, hr]
    cases r with
    | error e => rfl
    | ok v => exact result_assigned_property hs₁ (runsOn_after hs hafter hf) hk hdepth hx op pos (hgood v rfl)

include hcode

/-- The law of properties holds under the regime. -/
theorem liveProperties : LiveProperties stmts code env node m where
  placed _ _ := live_placed henv hok
  read ref σ k cls f i hnode hsite hfree hx hk hf := by
    have hdepth : ref.depth = some k :=
      depth_unhidden (hcode _ hsite (hnode ▸ rfl)) (hnode ▸ rfl) hfree hx
    obtain ⟨v, hv, hread, hmember⟩ := result_read_property hs hf hk hdepth hx
    refine ⟨v, hv, fun n pos => ⟨hread, ?_⟩⟩
    rw [result_get_of_value (result_selfAt hf hk n pos)]
    exact hmember
  write target op pos value σ k cls f i hnode hsite hfree hx hk hf := by
    have hdepth : target.depth = some k :=
      depth_unhidden (hcode _ hsite (hnode ▸ rfl)) (hnode ▸ rfl) hfree hx
    exact live_write hs henv hok hnode hdepth hx hk hf

end Law

end Regime

end ObjScript
