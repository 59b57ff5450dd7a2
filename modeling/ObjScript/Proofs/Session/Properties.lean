import ObjScript.Proofs.Session.Stages

/-!
# Properties are live

The statements of an orderly program are run one after the other at its top level.  Between two of them the store is
sound and knows the classes that were declared up to there (`TopLevel`): an interface makes its class, an
implementation gives it methods, and all other code keeps the regime.  So the law of properties holds at every node of
the run (`properties_are_live`).
-/

namespace ObjScript

open Regime (live)

/-! ### Between two statements -/

/-- The store is sound, and it knows the classes that were declared so far. -/
structure TopLevel (stmts : List Stmt) (code : List Site) (known : List String) (s : Store) : Prop where
  inv : (live stmts code).Inv s
  top : (live stmts code).Follows s Env.top [none]
  declared : known ⊆ declaredClasses stmts
  root : ∃ c, s.ClassAt rootClass c
  classes : ∀ cls ∈ known, ∃ c, s.ClassAt cls c ∧ (s.superclass? c).isSome = true

namespace TopLevel

variable {stmts : List Stmt} {code : List Site} {known : List String} {s t : Store} {x above : String} {c : ClassId}

/-- Before the program only the class above all others is known. -/
private theorem initial (hroot : rootClass ∉ declaredClasses stmts) : TopLevel stmts code [] Store.initial where
  inv := Regime.inv_initial {
    globals := ⟨rfl, rfl, rfl⟩
    top := ⟨rfl, rfl, rfl⟩
    size := Nat.one_lt_two
    properties := nofun
    shown := by
      intro f i hf
      obtain ⟨n⟩ := f
      match n, hf with
      | 0, hf | 1, hf | n + 2, hf => cases hf
    classes := by
      intro c hc x hx
      obtain ⟨n⟩ := c
      obtain rfl : n = 0 := Nat.lt_one_iff.1 hc
      exact absurd hx.mem_declared hroot
    names := by
      intro c x hx
      obtain ⟨n⟩ := c
      match n, hx with
      | 0, hx | n + 1, hx => cases hx }
  top := .scope nofun (by decide) ⟨rfl, rfl, rfl⟩ .globals
  declared := List.nil_subset _
  root := ⟨⟨0⟩, rfl, Nat.zero_lt_one, rfl⟩
  classes := nofun

section Steps

variable (h : TopLevel stmts code known s)

include h

/-- A later store knows the classes as well. -/
private theorem next (ht : (live stmts code).Inv t) (hlater : s.Later (Fixed known) t) :
    TopLevel stmts code known t where
  inv := ht
  top := h.top.later h.inv (hlater.imp fun _ hx => .inl hx)
  declared := h.declared
  root := by
    obtain ⟨c, hc⟩ := h.root
    exact ⟨c, hc.later h.inv.extra hlater (.inr List.mem_cons_self)⟩
  classes := by
    intro cls hcls
    obtain ⟨c, hc, hsuper⟩ := h.classes cls hcls
    refine ⟨c, hc.later h.inv.extra hlater (.inr (List.mem_cons_of_mem _ hcls)), ?_⟩
    rw [Store.superclass?_mono hlater hc.lt_size]
    exact hsuper

private theorem after (ht : (live stmts code).Inv t) (hafter : (live stmts code).After s t) :
    TopLevel stmts code known t :=
  h.next ht (hafter.stable.imp fun _ hx => hx.imp_right fun hx => List.cons_subset_cons _ h.declared hx)

private theorem classAt (hx : x ∈ rootClass :: known) : ∃ c, s.ClassAt x c := by
  rcases List.mem_cons.1 hx with rfl | hx
  · exact h.root
  · obtain ⟨c, hc, -⟩ := h.classes x hx
    exact ⟨c, hc⟩

/-- The name of a class that is yet to be declared may be bound. -/
private theorem define (hname : IsName x) (hnew : x ∉ rootClass :: known) {v : Value}
    (hv : (live stmts code).Good s v) :
    TopLevel stmts code known (s.define ⟨1⟩ x v) := by
  have hnot : ¬ Fixed known x := fun hx => hx.elim hname.not_reserved hnew
  refine h.next (h.inv.define ?_ hname.not_reserved hv) (.define s _ v hnot)
  exact h.inv.extra.define h.inv.lineages h.inv.receivers h.inv.classes _ hname v

/-- A class is made below another one. -/
private theorem pushClass (hc : s.ClassAt above c) {initial : Bindings Value}
    (hgood : initial.All ((live stmts code).Good s))
    (hnames : ∀ y, initial.has y = true → IsName y)
    (hhas : ∀ y, HasProperty stmts x y → initial.has y = true ∨ HasProperty stmts above y) :
    TopLevel stmts code known
      { s with classes := s.classes.push ⟨x, s.line c, initial, [("alloc", .alloc)]⟩ } := by
  refine h.next (h.inv.pushClass ?_ hgood rfl (.inr ⟨c, hc.lt_size, rfl⟩)) (.pushClass s _)
  refine h.inv.extra.pushClass h.inv.lineages h.inv.receivers h.inv.classes hnames fun y hy => ?_
  refine (hhas y hy).imp_right fun hy => ⟨c, hc.lt_size, rfl, ?_⟩
  exact h.inv.extra.classes c hc.lt_size y (hc.name.symm ▸ hy)

/-- The new class is bound to its name. -/
private theorem bindClass (hname : IsName x) (hnew : x ∉ rootClass :: known) (hdeclared : x ∈ declaredClasses stmts)
    (hc : c.index < s.classes.size) (hcname : (s.classOf c).name = x) (hsuper : (s.superclass? c).isSome = true) :
    TopLevel stmts code (known ++ [x]) (s.define ⟨1⟩ x (.classRef c)) := by
  have hdefined := h.define hname hnew (v := .classRef c) hc
  have hlater : s.Later (fun y => y ≠ x) (s.define ⟨1⟩ x (.classRef c)) := .define s _ _ fun hne => hne rfl
  have hput : s.define ⟨1⟩ x (.classRef c) = s.putBinding ⟨1⟩ x (.classRef c) := by
    unfold Store.define
    rw [h.inv.extra.top.receiver]
  have hown : (s.define ⟨1⟩ x (.classRef c)).own? ⟨1⟩ x = some (.value (.classRef c)) := by
    unfold Store.own?
    rw [hput, Store.frame_putBinding, if_pos ⟨rfl, h.inv.extra.size⟩]
    dsimp only
    rw [Bindings.get?_put_self]
  refine ⟨hdefined.inv, hdefined.top, ?_, hdefined.root, fun cls hcls => ?_⟩
  · exact List.append_subset.2 ⟨h.declared, List.cons_subset.2 ⟨hdeclared, List.nil_subset _⟩⟩
  · rcases List.mem_append.1 hcls with hcls | hcls
    · exact hdefined.classes cls hcls
    · obtain rfl := List.mem_singleton.1 hcls
      refine ⟨c, ⟨?_, Nat.lt_of_lt_of_le hc hlater.classes, (hlater.name c hc).trans hcname⟩, ?_⟩
      · unfold Store.lookup? Env.top
        rw [List.findSome?_cons, hown]
      · rw [Store.superclass?_mono hlater hc]
        exact hsuper

/-- A class that is known gets the methods of an implementation. -/
private theorem putMethods {name : Name} {methods : List FunctionDecl} (hi : Implements stmts code known name methods)
    (hc : s.ClassAt name.text c) (hsuper : (s.superclass? c).isSome = true) :
    TopLevel stmts code known (s.putMethods c
      (Run.methodTable Env.top methods)) := by
  have hbodies := FunctionDecl.forall_placesList.1 hi.bodies
  refine h.next (h.inv.putMethods ?_ fun q hq _ => ?_) (.putMethods s c _)
  · exact h.inv.extra.putMethods h.inv.lineages h.inv.receivers h.inv.classes c _
  · have himplements : (live stmts code).implements s c name.text := ⟨hc.name, hsuper⟩
    exact Regime.goodMethod_table himplements h.top hi.params hbodies q hq

end Steps

end TopLevel

/-! ### Running a program -/

/-- The initial values of a class are those of the properties that it declares. -/
private theorem has_evalProperties {i : Interp} {env : Env} {l : List VarDecl} {b b' : Bindings Value}
    {m m' : Machine}
    (h : (Run.evalProperties i env l b).result m = (.ok b', m')) (x : String) :
    b'.has x = true ↔ x ∈ l.map (·.name.text) ∨ b.has x = true := by
  induction l generalizing b m with
  | nil =>
    cases h
    simp
  | cons d rest ih =>
    obtain ⟨type, name, init⟩ := d
    -- whatever the initial value is, the name is bound to it
    have hnext : ∀ {v : Value} {m : Machine},
        (Run.evalProperties i env rest (b.put name.text v)).result m = (.ok b', m') →
        (b'.has x = true ↔ x ∈ name.text :: rest.map (·.name.text) ∨ b.has x = true) := by
      intro v m h
      rw [ih h, Bindings.has_put, List.mem_cons]
      tauto
    cases init with
    | none => exact hnext h
    | some e =>
      change (i.eval env e >>= fun v => Run.evalProperties i env rest (b.put name.text v)).result m = _ at h
      rw [Run.result_bind] at h
      split at h
      · exact hnext h
      · cases h

section Run

variable {stmts : List Stmt} {code : List Site} {known : List String} {i j : Interp} {m : Machine}

/-- At the top level a reference is read from there. -/
private theorem refEnv_top {ref : Ref} (h : ∀ d, ref.depth = some d → d = 0) : Run.refEnv Env.top ref = Env.top := by
  unfold Run.refEnv
  cases hd : ref.depth with
  | none => rfl
  | some d =>
    obtain rfl := h d hd
    rfl

/-- A class that was declared is made and bound to its name. -/
private theorem TopLevel.makeClass (h : TopLevel stmts code known m.store) {name : Name} {ref : Ref}
    {properties : List VarDecl} (hd : Declares stmts code known name ref properties) {c : ClassId}
    (hc : m.store.ClassAt ref.name.text c) (hbound : (m.store.frame ⟨1⟩).bindings.has name.text = true)
    {initial : Bindings Value} (hgood : initial.All ((live stmts code).Good m.store))
    (hhas : ∀ x, initial.has x = true ↔ x ∈ properties.map (·.name.text)) :
    ∃ m', (Run.makeClass Env.top name.text (m.store.line c) initial).result m = (.ok (), m') ∧
      TopLevel stmts code (known ++ [name.text]) m'.store := by
  have hpushed := h.pushClass (x := name.text) hc hgood (fun x hx => hd.names x ((hhas x).1 hx)) fun x hx =>
    (hd.has x hx).imp_left (hhas x).2
  generalize hs : Store.mk m.store.frames m.store.arrays
    (m.store.classes.push ⟨name.text, m.store.line c, initial, [("alloc", .alloc)]⟩) m.store.instances = s at hpushed
  let new : ClassId := ⟨m.store.classes.size⟩
  have hclass : s.classOf new = ⟨name.text, m.store.line c, initial, [("alloc", .alloc)]⟩ := by
    rw [← hs, Store.classOf_push, if_pos rfl]
  have hnew : new.index < s.classes.size := by
    rw [← hs]
    exact Nat.lt_of_lt_of_eq (Nat.lt_succ_self _) (Array.size_push ..).symm
  -- the frame of the program owns the name since the interface was begun
  have hfind : Env.top.find? (s.owns · name.text) = some ⟨1⟩ := by
    have howns : s.owns ⟨1⟩ name.text = true := by
      rw [Store.owns_of_receiver hpushed.inv.extra.top.receiver, ← hs]
      exact hbound
    exact List.find?_cons_of_pos howns
  refine ⟨{ m with store := s.define ⟨1⟩ name.text (.classRef new) }, ?_, ?_⟩
  · have hassign := result_assign_getD Env.top name.text (.classRef new) { m with store := s }
    rw [hfind] at hassign
    subst hs
    unfold Run.makeClass
    rw [Run.result_bind]
    exact hassign
  · refine hpushed.bindClass hd.isName hd.new hd.declared hnew (hclass ▸ rfl) ?_
    unfold Store.superclass?
    rw [hclass]
    rfl

/-- A superclass that is bound to a class is found. -/
private theorem result_lineageOf {ref : Ref} {c : ClassId} (hc : m.store.ClassAt ref.name.text c)
    (hdepth : ∀ d, ref.depth = some d → d = 0) (x : String) :
    Run.result (Run.lineageOf Env.top x (some ref)) m = (.ok (m.store.line c), m) := by
  have hread : (Run.read Env.top ref).result m = (.ok (.classRef c), m) := by
    unfold Run.read
    rw [refEnv_top hdepth]
    exact result_readName_value hc.bound
  rw [Run.lineageOf_some, Run.result_bind, hread]
  rfl

/-- A class is made once its superclass is found. -/
private theorem TopLevel.defineClass (h : TopLevel stmts code known m.store) (hagree : (live stmts code).Agree i j)
    {name : Name} {ref : Ref} {properties : List VarDecl} (hd : Declares stmts code known name ref properties)
    {c : ClassId} (hc : m.store.ClassAt ref.name.text c) :
    ∃ r m', (Run.defineClass i Env.top name.text properties (m.store.line c)).result m = (r, m') ∧
      (Run.defineClass j Env.top name.text properties (m.store.line c)).result m = (r, m') ∧
      ∀ a, r = .ok a → TopLevel stmts code (known ++ [name.text]) m'.store := by
  -- the name is bound to nothing
  have hstart : ∀ (e : Interp) lineage, (Run.defineClass e Env.top name.text properties lineage).result m = (do
      let initial ← Run.evalProperties e Env.top properties []
      Run.makeClass Env.top name.text lineage initial).result
        { m with store := m.store.define ⟨1⟩ name.text .null } := fun _ _ => rfl
  have h₁ := h.define hd.isName hd.new (v := .null) trivial
  have hbound := Store.has_define_self (x := name.text) (v := .null) h.inv.extra.top.receiver h.inv.extra.size
  have hlater : m.store.Later (fun x => x ≠ name.text) (m.store.define ⟨1⟩ name.text .null) :=
    .define m.store _ _ fun hne => hne rfl
  have hc₁ := hc.later h.inv.extra hlater fun heq => hd.new (heq ▸ hd.above)
  rw [hstart i, hstart j, ← hlater.line hc.lt_size]
  generalize m.store.define ⟨1⟩ name.text .null = s₁ at h₁ hbound hc₁
  -- the initial values belong to the regime
  obtain ⟨r, m₂, hi, hj, hinv, hafter, hr⟩ := hagree.evalProperties h₁.top hd.values Bindings.all_nil h₁.inv
    { m with store := s₁ } rfl
  rw [Run.result_bind, Run.result_bind, hi, hj]
  cases r with
  | error e => exact ⟨.error e, m₂, rfl, rfl, nofun⟩
  | ok initial =>
    have h₂ := h₁.after hinv hafter
    have hc₂ : m₂.store.ClassAt ref.name.text c :=
      hc₁.later h₁.inv.extra hafter.stable (.inr (List.cons_subset_cons _ h.declared hd.above))
    have hbound₂ : (m₂.store.frame ⟨1⟩).bindings.has name.text = true := by
      unfold Bindings.has
      rw [hafter.stable.binding ⟨1⟩ name.text h₁.inv.extra.size (.inr (List.mem_cons_of_mem _ hd.declared))]
      exact hbound
    have hhas : ∀ x, initial.has x = true ↔ x ∈ properties.map (·.name.text) := by
      intro x
      rw [has_evalProperties hi x]
      simp [Bindings.has, Bindings.get?]
    obtain ⟨m₃, hmake, h₃⟩ := h₂.makeClass hd hc₂ hbound₂ (hr initial rfl) hhas
    rw [hafter.later.line hc₁.lt_size] at hmake
    exact ⟨.ok (), m₃, hmake, hmake, fun _ _ => h₃⟩

/-- An interface declares its class. -/
private theorem TopLevel.execInterface (h : TopLevel stmts code known m.store) (hagree : (live stmts code).Agree i j)
    {name : Name} {ref : Ref} {methods : List FunctionDecl} {properties : List VarDecl}
    (hd : Declares stmts code known name ref properties) :
    ∃ r m', (Run.execStmt i Env.top (.classDef name (some ref) methods properties)).result m = (r, m') ∧
      (Run.execStmt j Env.top (.classDef name (some ref) methods properties)).result m = (r, m') ∧
      ∀ a, r = .ok a → TopLevel stmts code (known ++ [name.text]) m'.store := by
  obtain ⟨c, hc⟩ := h.classAt hd.above
  have hlineage := result_lineageOf hc hd.depth name.text
  obtain ⟨r, m', hi, hj, hr⟩ := h.defineClass hagree hd hc
  have hsteps : ∀ e : Interp, (Run.defineClass e Env.top name.text properties (m.store.line c)).result m = (r, m') →
      (Run.execStmt e Env.top (.classDef name (some ref) methods properties)).result m =
        (r.map fun _ => none, m') := by
    intro e he
    rw [Run.execStmt_classDef, Run.result_bind, hlineage]
    dsimp only
    rw [Run.result_bind, he]
    cases r <;> rfl
  refine ⟨_, m', hsteps i hi, hsteps j hj, fun a ha => ?_⟩
  cases r with
  | error e => cases ha
  | ok u => exact hr u rfl

/-- An implementation gives methods to its class. -/
private theorem TopLevel.execImplementation (h : TopLevel stmts code known m.store) {name : Name}
    {methods : List FunctionDecl} (hd : Implements stmts code known name methods) (e : Interp) :
    ∃ m', (Run.execStmt e Env.top (.classImpl name methods)).result m = (.ok none, m') ∧
      TopLevel stmts code known m'.store := by
  obtain ⟨c, hc, hsuper⟩ := h.classes _ hd.known
  have hput := h.putMethods hd hc hsuper
  refine ⟨{ m with store := _ }, ?_, hput⟩
  change Run.result (Run.implement Env.top name.text methods >>= fun _ => pure none) m = _
  rw [Run.implement_eq, Run.result_bind, Run.result_bind, result_readName_value hc.bound]
  rfl

section Law

variable {law : Env → Node → Machine → Prop} (stop : Stop) (n : Nat)
  (hlaw : ∀ {m : Machine} {env p node}, (live stmts code).Inv m.store → (live stmts code).Follows m.store env p →
    (∀ a ∈ node.places p, (live stmts code).ok a) → law env node m)
  (hclass : ∀ t m, (Node.stmt t).isClass = true → law Env.top (.stmt t) m)

include hlaw hclass

/-- A statement is run in the same way if the law is watched, and an interface declares its class. -/
private theorem TopLevel.exec (h : TopLevel stmts code known m.store) {t : Stmt} {rest : List Stmt}
    (hl : Staged stmts code known (t :: rest)) :
    ∃ r m', ((watched law stop (n + 1)).exec Env.top t).result m = (r, m') ∧
      ((interp (n + 1)).exec Env.top t).result m = (r, m') ∧ ∀ a, r = .ok a →
        ∃ known', Staged stmts code known' rest ∧ TopLevel stmts code known' m'.store := by
  have hagree := fun n => Regime.agree_watched (R := live stmts code) (fun _ _ => id) hlaw stop n
  -- at a statement about a class the demand does nothing
  have hdemand : (Node.stmt t).isClass = true → ((watched law stop (n + 1)).exec Env.top t).result m =
      (Run.execStmt (watched law stop n) Env.top t).result m := by
    intro ht
    change (Run.demand (law Env.top (.stmt t)) stop >>= fun _ => _).result m = _
    rw [Run.result_bind, Run.result_demand (hclass t m ht)]
  cases hl with
  | ordinary ht hrest =>
    obtain ⟨r, m', hi, hj, hinv, hafter, -⟩ := (hagree (n + 1)).exec h.top ht h.inv m rfl
    exact ⟨r, m', hi, hj, fun _ _ => ⟨known, hrest, h.after hinv hafter⟩⟩
  | interface ht hrest =>
    obtain ⟨r, m', hi, hj, hr⟩ := h.execInterface (hagree n) ht
    exact ⟨r, m', (hdemand rfl).trans hi, hj, fun a ha => ⟨_, hrest, hr a ha⟩⟩
  | implementation ht hrest =>
    obtain ⟨m', hi, h'⟩ := h.execImplementation ht (watched law stop n)
    obtain ⟨m'', hj, -⟩ := h.execImplementation ht (interp n)
    have hsame : m'' = m' := congrArg Prod.snd (hj.symm.trans hi)
    exact ⟨.ok none, m', (hdemand rfl).trans hi, hsame ▸ hj, fun _ _ => ⟨known, hrest, h'⟩⟩

/-- The statements are run in the same way if the law is watched. -/
private theorem TopLevel.program (h : TopLevel stmts code known m.store) {l : List Stmt}
    (hl : Staged stmts code known l) :
    (Run.program (watched law stop (n + 1)) Env.top l).result m =
      (Run.program (interp (n + 1)) Env.top l).result m := by
  induction l generalizing known m with
  | nil => rfl
  | cons t rest ih =>
    obtain ⟨r, m', hi, hj, hr⟩ := h.exec stop n hlaw hclass hl
    change ((watched law stop (n + 1)).exec Env.top t >>= _).result m =
      ((interp (n + 1)).exec Env.top t >>= _).result m
    rw [Run.result_bind, Run.result_bind, hi, hj]
    match r with
    | .error _ | .ok (some _) => rfl
    | .ok none =>
      obtain ⟨known', hrest, h'⟩ := hr none rfl
      exact ih h' hrest

end Law

end Run

/-! ### Programs with classes -/

/-- The law has nothing to say about statements. -/
private theorem liveProperties_stmt (stmts : List Stmt) (code : List Site) (env : Env) (t : Stmt) (m : Machine) :
    LiveProperties stmts code env (.stmt t) m :=
  ⟨nofun, nofun, nofun⟩

/-- In a program whose classes are declared and implemented in order at the top level, the names of properties stand
for the current properties of the running instance. -/
theorem properties_are_live (input : List String) (clock : Nat → Float) (threshold : Nat) {source : String}
    {stmts : List Stmt} {s : Session}
    (hparse : (Session.initial (Machine.initial input clock threshold)).parse source = (.ok stmts, s))
    (h : Orderly stmts) :
    (Session.initial (Machine.initial input clock threshold)).Always [source]
      (LiveProperties stmts (Stmt.sitesList (s.resolve stmts).1 [⟨none, []⟩])) := by
  intro stop
  have hwritten := Session.written_parse hparse
  obtain ⟨⟨log, hmachine⟩, hscopes⟩ := (Session.initial (Machine.initial input clock threshold)).parse_frame source
  rw [hparse] at hmachine hscopes
  have hresolve : (s.resolve stmts).1 = (resolveProgram Scopes.initial stmts).1 :=
    congrArg (fun scopes => (resolveProgram scopes stmts).1) hscopes
  have hstaged := h.staged hwritten
  have hsited := h.sited (P := fun n => n.isClass = false → n.Ordinary stmts) fun n hn =>
    ⟨(hwritten n hn n n.mem_below).2, h.ordinary hn (hwritten n hn)⟩
  rw [← hresolve] at hstaged hsited
  generalize Stmt.sitesList (s.resolve stmts).1 [⟨none, []⟩] = code at hstaged hsited ⊢
  have hcode : ∀ site ∈ code, site.node.isClass = false → Sited (HasProperty stmts) (Node.Ordinary stmts) site := by
    intro site hsite hclass
    obtain ⟨n, scopes, hn, hmatch, hnode⟩ := hsited site hsite
    refine ⟨n, scopes, hn ?_, hmatch, hnode⟩
    rw [← n.isClass_resolved scopes, ← hnode]
    exact hclass
  have htop : TopLevel stmts code [] s.machine.store := by
    rw [hmachine]
    exact .initial (List.nodup_cons.1 h.once).1
  have hlaw : ∀ {m : Machine} {env p node}, (live stmts code).Inv m.store → (live stmts code).Follows m.store env p →
      (∀ a ∈ node.places p, (live stmts code).ok a) → LiveProperties stmts code env node m :=
    fun hs henv hok => Regime.liveProperties hcode hs henv hok
  have hprogram := htop.program stop (depthLimit - 1) hlaw (fun t m _ => liveProperties_stmt stmts code _ t m) hstaged
  have hlimit : depthLimit - 1 + 1 = depthLimit := rfl
  rw [hlimit] at hprogram
  have hrun : s.runWith (watched (LiveProperties stmts code) stop depthLimit) stmts = s.run stmts :=
    Session.runWith_of_interpret (congrArg Machine.finish hprogram)
  have hexecute := Session.executeWith_of_run hparse hrun
  unfold Session.executeAllWith Session.executeAll
  rw [hexecute]
  rfl

/-- In a method of the class `B`, a block literal sets a property that the class `A` declares. -/
def inheritedSource : String :=
  "@interface A:NSObject @property id p; @end @interface B:A @end " ++
  "@implementation B -(id)s\x7bid f=^\x7bp=YES;\x7d;f();print p;\x7d@end [[B alloc]s];"

/-- The block sets the property of the instance and not a name in a frame of its own. -/
theorem properties_are_live_in_block :
    let session := Session.initial (Machine.initial [] (fun _ => 0) 30)
    (session.execute inheritedSource).2.machine.printed = "YES\n" ∧
      ∃ stmts s, session.parse inheritedSource = (.ok stmts, s) ∧ Orderly stmts ∧
        session.Always [inheritedSource]
    (LiveProperties stmts (Stmt.sitesList (s.resolve stmts).1 [⟨none, []⟩])) := by
  intro session
  have hrun : (session.execute inheritedSource).2.machine.printed = "YES\n" ∧
      (match (session.parse inheritedSource).1 with
        | .ok stmts => decide (Orderly stmts)
        | .error _ => false) = true := by decide +kernel
  obtain ⟨hprinted, horderly⟩ := hrun
  refine ⟨hprinted, ?_⟩
  match hparse : session.parse inheritedSource with
  | (.error _, _) =>
    rw [hparse] at horderly
    cases horderly
  | (.ok stmts, s) =>
    rw [hparse] at horderly
    have h : Orderly stmts := of_decide_eq_true horderly
    exact ⟨stmts, s, rfl, h, properties_are_live [] (fun _ => 0) 30 hparse h⟩

end ObjScript
