import ObjScript.Proofs.Eval.Classes
import ObjScript.Proofs.Eval.Quiet
import ObjScript.Proofs.Eval.Regime

/-!
# Steps under a regime

`R.Keeps Q s t u` says that the steps `t` and `u` do the same on a machine whose store is `s`, that they keep the
invariant of the regime, and that a result has the property `Q`.  Reading and writing names, finding members and
making classes keep every regime.
-/

namespace ObjScript

namespace Regime

variable {α β : Type} {R : Regime} {s s' : Store} {env : Env} {p : Surroundings} {x : String}

/-- Both steps do the same, they keep the invariant, and the result has the property. -/
def Keeps (R : Regime) (Q : Store → α → Prop) (s : Store) (t u : Run α) : Prop :=
  R.Inv s → ∀ m : Machine, m.store = s → ∃ r m', t.result m = (r, m') ∧ u.result m = (r, m') ∧
    R.Inv m'.store ∧ R.After s m'.store ∧ ∀ a, r = .ok a → Q m'.store a

namespace Keeps

variable {Q Q' : Store → α → Prop} {P : Store → β → Prop} {t u : Run α}

theorem ofInv (h : R.Inv s → R.Keeps Q s t u) : R.Keeps Q s t u :=
  fun hs => h hs hs

/-- Only the results on machines with the store count. -/
theorem congr {t' u' : Run α} (h : R.Keeps Q s t u) (ht : ∀ m : Machine, m.store = s → t'.result m = t.result m)
    (hu : ∀ m : Machine, m.store = s → u'.result m = u.result m) : R.Keeps Q s t' u' := by
  intro hs m hm
  rw [ht m hm, hu m hm]
  exact h hs m hm

theorem weaken (h : R.Keeps Q s t u) (hQ : ∀ s' a, R.Inv s' → R.After s s' → Q s' a → Q' s' a) :
    R.Keeps Q' s t u := by
  intro hs m hm
  obtain ⟨r, m', ht, hu, hs', hafter, hr⟩ := h hs m hm
  exact ⟨r, m', ht, hu, hs', hafter, fun a ha => hQ _ a hs' hafter (hr a ha)⟩

/-- A step that looks at the machine. -/
private theorem look {k l : Machine → Run α} (hk : ∀ m : Machine, m.store = s → R.Keeps Q s (k m) (l m)) :
    R.Keeps Q s (get >>= k) (get >>= l) :=
  fun hs m hm => hk m hm hs m hm

/-- A step on the store. -/
private theorem onStore {step : WithStore α} (h : R.Inv s → (R.Inv (step.run s).2 ∧ R.After s (step.run s).2) ∧
      Q (step.run s).2 (step.run s).1) : R.Keeps Q s (Run.onStore step) (Run.onStore step) := by
  rintro hs m rfl
  obtain ⟨⟨hs', hafter⟩, ha⟩ := h hs
  exact ⟨.ok (step.run m.store).1, { m with store := (step.run m.store).2 }, rfl, rfl, hs', hafter,
    fun _ h => Except.ok.inj h ▸ ha⟩

private theorem modifyStore {f : Store → Store} (h : R.Inv s → R.Inv (f s) ∧ R.After s (f s)) :
    R.Keeps (fun s' _ => s' = f s) s (Run.modifyStore f) (Run.modifyStore f) := by
  rintro hs m rfl
  obtain ⟨hs', hafter⟩ := h hs
  exact ⟨.ok (), { m with store := f m.store }, rfl, rfl, hs', hafter, fun _ _ => rfl⟩

variable [hR : R.Lawful]

theorem pure {a : α} (ha : Q s a) : R.Keeps Q s (pure a) (pure a) := by
  rintro hs m rfl
  exact ⟨.ok a, m, rfl, rfl, hs, .refl _, fun _ h => Except.ok.inj h ▸ ha⟩

theorem throw (e : Stop) : R.Keeps Q s (throw e) (throw e) := by
  rintro hs m rfl
  exact ⟨.error e, m, rfl, rfl, hs, .refl _, nofun⟩

theorem bind {k l : α → Run β} (h : R.Keeps Q s t u)
    (hk : ∀ s' a, R.Inv s' → R.After s s' → Q s' a → R.Keeps P s' (k a) (l a)) :
    R.Keeps P s (t >>= k) (u >>= l) := by
  intro hs m hm
  obtain ⟨r, m₁, ht, hu, hs₁, hafter, hr⟩ := h hs m hm
  rw [Run.result_bind, Run.result_bind, ht, hu]
  cases r with
  | error e => exact ⟨.error e, m₁, rfl, rfl, hs₁, hafter, nofun⟩
  | ok a =>
    obtain ⟨r, m₂, ht, hu, hs₂, hafter', hr'⟩ := hk _ a hs₁ hafter (hr a rfl) hs₁ m₁ rfl
    exact ⟨r, m₂, ht, hu, hs₂, hafter.trans hafter', hr'⟩

theorem quiet {P : α → Prop} (h : Run.Quiet P t) (hP : ∀ a, P a → Q s a) : R.Keeps Q s t t := by
  rintro hs m rfl
  obtain ⟨r, m', ht, hstore, hr⟩ := h m
  refine ⟨r, m', ht, ht, ?_, ?_, fun a ha => ?_⟩
  · rw [hstore]
    exact hs
  · rw [hstore]
    exact .refl _
  · rw [hstore]
    exact hP a (hr a ha)

end Keeps

theorem good_of_isData {v : Value} (hv : v.IsData) : R.Good s v := by
  match v, hv with
  | .null, _ | .number _, _ | .string _, _ | .bool _, _ | .array _, _ | .builtin _, _ => trivial

/-! ### What is found in a sound store -/

/-- What is found under a name: a sound value, or a method that is found along the line of an instance. -/
def GoodMember (R : Regime) (s : Store) : Member → Prop
  | .value v => R.Good s v
  | .method f i superclass => ∃ c above, superclass = above.head? ∧ R.GoodMethod s c (.closure f) ∧
      i.index < s.instances.size ∧ R.Binds s i c above

/-- What is found in a class along a line. -/
private theorem Inv.findMethod? (hs : R.Inv s) {visible : Method → Bool} {line : List ClassId} {found : FoundMethod}
    (h : s.findMethod? visible x line = some found) : found.owner.index < s.classes.size ∧
      R.GoodMethod s found.owner found.method ∧
      ∃ below above, line = below ++ found.owner :: above ∧ found.superclass = above.head? := by
  obtain ⟨below, above, hline, hsuper, hmethod, -⟩ := Store.findMethod?_eq_some.1 h
  have hmem : ∃ q ∈ (s.classOf found.owner).methods, q.2 = found.method := by
    by_contra hnone
    have hall : Bindings.All (· ≠ found.method) (s.classOf found.owner).methods :=
      fun q hq hm => hnone ⟨q, hq, hm⟩
    exact hall.get? hmethod rfl
  obtain ⟨q, hq, hm⟩ := hmem
  exact ⟨lt_size_of_methods hq, hm ▸ hs.methods _ q hq, below, above, hline, hsuper⟩

private theorem Inv.member? (hs : R.Inv s) {i : InstanceId} (hi : i.index < s.instances.size) {found : Member}
    (h : s.member? i x = some found) : R.GoodMember s found := by
  unfold Store.member? at h
  split at h
  · next v hv =>
    cases h
    exact (hs.values.object i).get? hv
  · split at h
    · next owner f superclass hfind =>
      cases h
      obtain ⟨-, hgood, below, above, hline, hsuper⟩ := hs.findMethod? hfind
      exact ⟨owner, above, hsuper, hgood, hi, .ofInstance below hline⟩
    · next hfind =>
      cases h
      exact (hs.findMethod? hfind).1
    · split at h
      · cases h
        exact hi
      · cases h

theorem Inv.lookup? (hs : R.Inv s) {found : Member} (h : s.lookup? env x = some found) : R.GoodMember s found := by
  obtain ⟨f, -, hf⟩ := List.exists_of_findSome?_eq_some h
  unfold Store.own? at hf
  split at hf
  · next v hv =>
    cases hf
    exact (hs.values.frame f).get? hv
  · split at hf
    · next i hi => exact hs.member? (hs.receivers f i hi) hf
    · cases hf

/-- The superclass of a class is a class of the store. -/
private theorem Inv.superclass_lt (hs : R.Inv s) {i : InstanceId} (hi : i.index < s.instances.size) {c k : ClassId}
    {above : List ClassId} (h : R.Binds s i c above) (hk : above.head? = some k) : k.index < s.classes.size := by
  have hmem : k ∈ above := List.mem_of_mem_head? hk
  have hline : ∀ (d : ClassId) (below : List ClassId), d.index < s.classes.size → s.line d = below ++ c :: above →
      k.index < s.classes.size := fun d below hd hline => hs.lineages.lt_size hd (hline ▸ by simp [hmem])
  cases h with
  | ofInstance below hl => exact hline _ below (hs.classes i hi) hl
  | ofSuper env p ref d below _ _ hsuper _ hl => exact hline d below (hs.lookup? hsuper) hl

/-! ### Frames -/

/-- A frame of a chain is that of the built-in names or one for a scope. -/
private theorem Follows.mem (h : R.Follows s env p) {f : FrameId} (hf : f ∈ env) :
    f = .globals ∨ f ≠ .globals ∧ f.index < s.frames.size ∧ ∃ l, R.follows s f l := by
  induction h with
  | globals => exact .inl (List.mem_singleton.1 hf)
  | scope hne hlt hl _ ih =>
    rcases List.mem_cons.1 hf with rfl | hf
    · exact .inr ⟨hne, hlt, _, hl⟩
    · exact ih hf

/-- The frame of the nearest implementation. -/
theorem Follows.home (h : R.Follows s env p) {k : Nat} (hk : p.home? = some k) :
    ∃ inner f outer cls, env = inner ++ f :: outer ∧ inner.length = k ∧ p[k]? = some (some cls) ∧
      R.follows s f (some cls) ∧ ∀ g ∈ inner, R.follows s g none := by
  induction h generalizing k with
  | globals => cases hk
  | @scope f l env p hne hlt hl henv ih =>
    unfold Surroundings.home? at hk ih
    rw [List.findIdx?_cons] at hk
    cases l with
    | some cls =>
      obtain rfl : 0 = k := Option.some.inj hk
      exact ⟨[], f, env, cls, rfl, rfl, rfl, hl, List.forall_mem_nil _⟩
    | none =>
      obtain ⟨j, hj, rfl⟩ := Option.map_eq_some_iff.1 hk
      obtain ⟨inner, g, outer, cls, rfl, rfl, hcls, hg, hinner⟩ := ih hj
      exact ⟨f :: inner, g, outer, cls, rfl, rfl, hcls, hg, List.forall_mem_cons.2 ⟨hl, hinner⟩⟩

/-- Outside of implementations all scopes are of the same kind. -/
theorem Follows.plain (h : R.Follows s env p) (hp : p.home? = none) :
    ∀ f ∈ env, f = .globals ∨ R.follows s f none := by
  induction h with
  | globals => exact List.forall_mem_singleton.2 (.inl rfl)
  | @scope f l env p _ _ hl _ ih =>
    have hp' : l.isSome = false ∧ p.home? = none := by
      unfold Surroundings.home? at hp ⊢
      rw [List.findIdx?_eq_none_iff] at hp ⊢
      exact ⟨hp l List.mem_cons_self, fun x hx => hp x (List.mem_cons_of_mem _ hx)⟩
    cases l with
    | some cls => exact absurd hp'.1 nofun
    | none => exact List.forall_mem_cons.2 ⟨.inr hl, ih hp'.2⟩

theorem Follows.isChain (h : R.Follows s env p) :
    ∃ frames, env = frames ++ [.globals] ∧ ∀ f ∈ frames, f ≠ .globals ∧ f.index < s.frames.size := by
  induction h with
  | globals => exact ⟨[], rfl, List.forall_mem_nil _⟩
  | @scope f _ _ _ hne hlt _ _ ih =>
    obtain ⟨frames, rfl, hframes⟩ := ih
    exact ⟨f :: frames, rfl, List.forall_mem_cons.2 ⟨⟨hne, hlt⟩, hframes⟩⟩

theorem Follows.length (h : R.Follows s env p) : env.length = p.length + 1 := by
  induction h with
  | globals => rfl
  | scope _ _ _ _ ih => rw [List.length_cons, ih, List.length_cons]

theorem ancestor_subset (env : Env) (d : Nat) : env.ancestor d ⊆ env := by
  fun_induction Env.ancestor env d with
  | case1 => exact List.Subset.refl _
  | case2 => exact List.Subset.refl _
  | case3 => exact List.Subset.refl _
  | case4 f outer d _ ih => exact fun g hg => List.mem_cons_of_mem _ (ih hg)

/-- What is known of a frame that was made for a scope. -/
structure Opened (R : Regime) (s : Store) (l : Option String) (f : FrameId) : Prop where
  ne_globals : f ≠ .globals
  lt_size : f.index < s.frames.size
  follows : R.follows s f l

theorem Opened.scope {f : FrameId} {l : Option String} (h : R.Opened s l f) (henv : R.Follows s env p) :
    R.Follows s (f :: env) (l :: p) :=
  .scope h.ne_globals h.lt_size h.follows henv

variable [hR : R.Lawful]

/-- Making a frame. -/
theorem keeps_newFrame {new : Frame} {l : Option String} (hnew : R.Makes s new l) (hb : new.bindings.All (R.Good s))
    (hr : ∀ i, new.receiver = some i → i.index < s.instances.size) :
    R.Keeps (fun s' f => R.Opened s' l f) s (Run.onStore (Store.newFrame new))
    (Run.onStore (Store.newFrame new)) := by
  have hchange : R.Change s { s with frames := s.frames.push new } := .frame hnew
  refine .onStore fun hs => ⟨⟨hs.pushFrame (hR.change hs hchange).1 hb hr, hchange.after hs⟩, ?_⟩
  refine ⟨fun h => ?_, ?_, hR.makes hs hnew⟩
  · exact absurd (congrArg FrameId.index h) (Nat.ne_of_gt hs.globals)
  · change s.frames.size < (s.frames.push new).size
    rw [Array.size_push]
    exact Nat.lt_succ_self _

/-- A copy of a chain follows the same scopes. -/
theorem keeps_snapshot (h : R.Follows s env p) :
    R.Keeps (fun s' copy => R.Follows s' copy p) s (Run.onStore (Store.snapshot (some .globals) env))
      (Run.onStore (Store.snapshot (some .globals) env)) := by
  induction h with
  | globals => exact .onStore fun hs => ⟨⟨hs, .refl s⟩, .globals⟩
  | @scope f l env p hf hlt hl henv ih =>
    refine Keeps.congr ?_ (fun m _ => result_snapshot_cons hf env m) fun m _ => result_snapshot_cons hf env m
    refine .ofInv fun hs => .bind ih fun s' outer hs' hafter houter => ?_
    have hlt' := Nat.lt_of_lt_of_le hlt hafter.later.frames
    have hcopy : R.Keeps (fun t copy => R.Opened t l copy) s' (Run.onStore (Store.copyFrame f))
        (Run.onStore (Store.copyFrame f)) := by
      have hmakes : R.Makes s' (s'.frame f) l := .copy hf hlt' (hR.follows_mono hs hafter.later hlt hl)
      refine (keeps_newFrame hmakes (hs'.values.frame f) (hs'.receivers f)).congr ?_ ?_
      all_goals
        rintro m rfl
        exact result_copyFrame f m
    exact .bind hcopy fun t copy _ hafter' hopened => .pure (hopened.scope (houter.mono hs' hafter'))

/-! ### Binding methods and finding members -/

/-- A method that is bound can be run. -/
private theorem keeps_bindMethod {f : Closure} {i : InstanceId} {c : ClassId} {above : List ClassId}
    (hi : i.index < s.instances.size) (hf : R.GoodMethod s c (.closure f)) (h : R.Binds s i c above) :
    R.Keeps R.Good s (Run.onStore (Store.bindMethod f i above.head?))
      (Run.onStore (Store.bindMethod f i above.head?)) := by
  refine .ofInv fun hs => ?_
  obtain ⟨name, hname, hrun⟩ := hf
  have hbindings : (Store.boundFrame i above.head?).bindings.All (R.Good s) := by
    refine List.forall_mem_cons.2 ⟨hi, fun q hq => ?_⟩
    cases hk : above.head? with
    | none =>
      rw [hk] at hq
      cases hq
    | some k =>
      rw [hk] at hq
      rw [List.mem_singleton.1 hq]
      exact hs.superclass_lt hi h hk
  have hframe := keeps_newFrame (.bound hi hname h) hbindings fun k hk => Option.some.inj hk ▸ hi
  refine Keeps.congr (Keeps.bind hframe fun s' frame _ hafter hopened =>
    .pure (a := Value.function { f with env := frame :: f.env }) ?_) (fun _ _ => rfl) fun _ _ => rfl
  rcases hrun with hexempt | ⟨p, henv, hparams, hok⟩
  · exact .inl (hR.exempt_bound hopened.ne_globals hopened.lt_size (hR.exemptMethod_mono hafter.later hexempt))
  · exact .inr ⟨some name :: p, hopened.scope (henv.mono hs hafter), hparams, hok⟩

private theorem keeps_memberValue {found : Member} (h : R.GoodMember s found) :
    R.Keeps R.Good s (Run.onStore (Store.memberValue found)) (Run.onStore (Store.memberValue found)) := by
  cases found with
  | value v => exact .onStore fun hs => ⟨⟨hs, .refl s⟩, h⟩
  | method f i superclass =>
    obtain ⟨c, above, rfl, hf, hi, hbinds⟩ := h
    exact keeps_bindMethod hi hf hbinds

/-- Reading a name binds a method, or it leaves the store alone and gives what the name stands for. -/
theorem keeps_readName :
    R.Keeps (fun s' v => R.Good s' v ∧ ((∃ f, v = .function f) ∨
      s' = s ∧ (v = .null ∨ s.lookup? env x = some (.value v)))) s (Run.readName env x) (Run.readName env x) := by
  refine .ofInv fun hs => ?_
  have hresult : ∀ m : Machine, m.store = s →
      (Run.readName env x).result m = (Run.ofMember (s.lookup? env x)).result m := by
    rintro m rfl
    exact result_readName env x m
  refine Keeps.congr ?_ hresult hresult
  cases hfound : s.lookup? env x with
  | none => exact .pure ⟨trivial, .inr ⟨rfl, .inl rfl⟩⟩
  | some found =>
    have hgood := hs.lookup? hfound
    dsimp only [Run.ofMember]
    cases found with
    | value v => exact .onStore fun hs => ⟨⟨hs, .refl s⟩, hgood, .inr ⟨rfl, .inr rfl⟩⟩
    | method f i superclass =>
      have hfunction : ∀ m : Machine, ∃ g m', (Run.onStore (Store.memberValue (.method f i superclass))).result m =
          (.ok (.function g), m') := fun m => ⟨_, _, rfl⟩
      intro hs m hm
      obtain ⟨r, m', ht, hu, hs', hafter, hr⟩ := keeps_memberValue hgood hs m hm
      refine ⟨r, m', ht, hu, hs', hafter, fun v hv => ⟨hr v hv, .inl ?_⟩⟩
      obtain ⟨g, m₁, hg⟩ := hfunction m
      obtain ⟨hr₁, -⟩ := Prod.mk.inj (ht.symm.trans hg)
      exact ⟨g, Except.ok.inj (hv.symm.trans hr₁)⟩

theorem keeps_instanceMember {i : InstanceId} (hi : i.index < s.instances.size) :
    R.Keeps R.Good s (Run.instanceMember i x) (Run.instanceMember i x) := by
  refine .ofInv fun hs => ?_
  have hresult : ∀ m : Machine, m.store = s →
      (Run.instanceMember i x).result m = (Run.ofMember (s.member? i x)).result m := by
    rintro m rfl
    exact result_instanceMember i x m
  refine Keeps.congr ?_ hresult hresult
  cases hfound : s.member? i x with
  | none => exact .pure trivial
  | some found => exact keeps_memberValue (hs.member? hi hfound)

/-- A method that was found through a class. -/
private theorem keeps_staticMethod {found : Option FoundMethod} {c : ClassId} (hc : c.index < s.classes.size)
    (hfound : ∀ k ∈ found, k.owner.index < s.classes.size ∧ R.GoodMethod s k.owner k.method) :
    R.Keeps R.Good s (Run.staticMethod found c) (Run.staticMethod found c) := by
  match found, hfound with
  | none, _ => exact .pure trivial
  | some ⟨owner, .alloc, superclass⟩, hfound => exact .pure (hfound _ rfl).1
  | some ⟨owner, .closure f, superclass⟩, hfound =>
    refine .ofInv fun hs => ?_
    obtain ⟨name, hname, hrun⟩ := (hfound _ rfl).2
    have hframe := keeps_newFrame (.static hc hname) (List.forall_mem_singleton.2 hc) nofun
    refine Keeps.congr (Keeps.bind hframe fun s' frame _ hafter hopened =>
      .pure (a := Value.function { f with env := frame :: f.env }) ?_) (fun _ _ => rfl) fun _ _ => rfl
    rcases hrun with hexempt | ⟨p, henv, hparams, hok⟩
    · exact .inl (hR.exempt_bound hopened.ne_globals hopened.lt_size (hR.exemptMethod_mono hafter.later hexempt))
    · exact .inr ⟨some name :: p, hopened.scope (henv.mono hs hafter), hparams, hok⟩

private theorem keeps_classMember {c : ClassId} (hc : c.index < s.classes.size) :
    R.Keeps R.Good s (Run.classMember c x) (Run.classMember c x) := by
  refine .ofInv fun hs => ?_
  have hresult : ∀ m : Machine, m.store = s → (Run.classMember c x).result m =
      (Run.staticMethod (s.findMethod? Method.isStatic x (s.line c)) c).result m := by
    rintro m rfl
    exact result_classMember c x m
  refine (keeps_staticMethod hc fun k hk => ?_).congr hresult hresult
  obtain ⟨hlt, hgood, -⟩ := hs.findMethod? hk
  exact ⟨hlt, hgood⟩

/-- A member that is reached through `super`. -/
private theorem keeps_superMember {ref : Ref} {c : ClassId} (henv : R.Follows s env p)
    (hok : R.ok ⟨.expr (.superRef ref), p⟩)
    (hsuper : s.lookup? (Run.refEnv env ref) ref.name.text = some (.value (.classRef c))) :
    R.Keeps R.Good s (Run.superMember env c x) (Run.superMember env c x) := by
  refine .ofInv fun hs => ?_
  have hc : c.index < s.classes.size := hs.lookup? hsuper
  have hresult : ∀ m : Machine, m.store = s → Run.result (Run.superMember env c x) m = (Run.readName env "self" >>=
      Run.ofSuper (s.findMethod? (fun _ => true) x (s.line c)) c x).result m := by
    rintro m rfl
    exact result_superMember env c x m
  refine Keeps.congr ?_ hresult hresult
  generalize hfound : s.findMethod? (fun _ => true) x (s.line c) = found
  refine .bind keeps_readName fun s' self hs' hafter hself => ?_
  have hstatic : R.Keeps R.Good s' (Run.staticMethod found c) (Run.staticMethod found c) := by
    refine keeps_staticMethod (Nat.lt_of_lt_of_le hc hafter.later.classes) fun k hk => ?_
    obtain ⟨hlt, hgood, -⟩ := hs.findMethod? (hfound.trans hk)
    exact ⟨Nat.lt_of_lt_of_le hlt hafter.later.classes, hgood.mono hs hafter hlt⟩
  cases self with
  | object i =>
    obtain ⟨hi, ⟨f, hf⟩ | ⟨rfl, hnull | hself⟩⟩ := hself
    · cases hf
    · cases hnull
    · match found, hfound with
      | none, _ =>
        change R.Keeps R.Good s' (Pure.pure (if x = "init" then .native (.init i) else .null))
          (Pure.pure (if x = "init" then .native (.init i) else .null))
        split
        · exact .pure hi
        · exact .pure trivial
      | some ⟨owner, .alloc, superclass⟩, hfound => exact .pure (hs.findMethod? hfound).1
      | some ⟨owner, .closure f, superclass⟩, hfound =>
        obtain ⟨-, hgood, below, above, hline, rfl⟩ := hs.findMethod? hfound
        exact keeps_bindMethod hi hgood (.ofSuper env p ref c below henv hok hsuper hself hline)
  | _ => exact hstatic

/-- The member of a value. -/
theorem keeps_member {v : Value} {object : Expr} (henv : R.Follows s env p)
    (hok : R.ok ⟨.expr object, p⟩) (hv : R.Good s v)
    (hsuper : ∀ ref c, object = .superRef ref → v = .classRef c →
      s.lookup? (Run.refEnv env ref) ref.name.text = some (.value (.classRef c))) :
    R.Keeps R.Good s (Run.member env (Run.isSuper object) v x) (Run.member env (Run.isSuper object) v x) := by
  cases v with
  | object i => exact keeps_instanceMember hv
  | classRef c =>
    change R.Keeps R.Good s (if Run.isSuper object then Run.superMember env c x else Run.classMember c x)
      (if Run.isSuper object then Run.superMember env c x else Run.classMember c x)
    split
    · next hobject =>
      cases object with
      | superRef ref => exact keeps_superMember henv hok (hsuper ref c rfl rfl)
      | _ => cases hobject
    · exact keeps_classMember hv
  | _ => exact .pure (good_of_isData (Run.isData_builtinMember _ x))

/-! ### Writing -/

section Writing

variable {v : Value}

/-- A name is bound in a frame of the chain. -/
private theorem keeps_defineAt {f : FrameId} (henv : R.Follows s env p) (hf : f ∈ env) (hx : R.free x)
    (hv : R.Good s v) :
    R.Keeps (fun _ _ => True) s (Run.modifyStore (·.define f x v)) (Run.modifyStore (·.define f x v)) := by
  refine (Keeps.modifyStore fun hs => ?_).weaken fun _ _ _ _ _ => trivial
  have hchange : R.Change s (s.define f x v) := .define (fun hne => (henv.mem hf).elim (absurd · hne) (·.2)) hx
  exact ⟨hs.define (hR.change hs hchange).1 (hR.not_kept hx) hv, hchange.after hs⟩

theorem keeps_define {env' : Env} (henv : R.Follows s env p) (hsub : env' ⊆ env) (hx : R.free x) (hv : R.Good s v) :
    R.Keeps (fun _ _ => True) s (Run.define env' x v) (Run.define env' x v) := by
  cases env' with
  | nil => exact (Keeps.modifyStore fun hs => ⟨hs, .refl s⟩).weaken fun _ _ _ _ _ => trivial
  | cons f outer => exact keeps_defineAt henv (hsub List.mem_cons_self) hx hv

/-- A name is bound in the nearest frame that owns it. -/
private theorem keeps_assignNearest {missing : Run Unit} (henv : R.Follows s env p) (hx : R.free x) (hv : R.Good s v)
    (hmissing : R.Keeps (fun _ _ => True) s missing missing) :
    R.Keeps (fun _ _ => True) s
      (match env.find? (s.owns · x) with
        | some f => Run.modifyStore (·.define f x v)
        | none => missing)
      (match env.find? (s.owns · x) with
        | some f => Run.modifyStore (·.define f x v)
        | none => missing) := by
  cases hfind : env.find? (s.owns · x) with
  | none => exact hmissing
  | some f => exact keeps_defineAt henv (List.mem_of_find?_eq_some hfind) hx hv

theorem keeps_assign {ref : Ref} (henv : R.Follows s env p) (hx : R.free ref.name.text) (hv : R.Good s v) :
    R.Keeps (fun _ _ => True) s (Run.assign env ref v) (Run.assign env ref v) := by
  obtain ⟨name, depth⟩ := ref
  cases depth with
  | some d => exact keeps_define henv (ancestor_subset env d) hx hv
  | none =>
    have hdropped : R.Keeps (fun _ _ => True) s
        (Run.debug .assignments (return "assignment to undeclared " ++ Text.quoted name.text ++ " dropped"))
        (Run.debug .assignments (return "assignment to undeclared " ++ Text.quoted name.text ++ " dropped")) :=
      .quiet (Run.quiet_debug _ (.pure trivial)) fun _ _ => trivial
    refine (keeps_assignNearest henv hx hv hdropped).congr ?_ ?_
    all_goals
      rintro m rfl
      exact result_assign_none env name v m

theorem keeps_putProperty {i : InstanceId} (hv : R.Good s v) :
    R.Keeps (fun _ _ => True) s (Run.modifyStore (·.putProperty i x v)) (Run.modifyStore (·.putProperty i x v)) := by
  have hchange : R.Change s (s.putProperty i x v) := .property i x v
  refine (Keeps.modifyStore fun hs => ?_).weaken fun _ _ _ _ _ => trivial
  exact ⟨hs.putProperty (hR.change hs hchange).1 hv, hchange.after hs⟩

theorem keeps_allocate {c : ClassId} (hc : c.index < s.classes.size) :
    R.Keeps R.Good s (Run.onStore (Store.allocate c)) (Run.onStore (Store.allocate c)) := by
  have hchange : R.Change s { s with instances := s.instances.push ⟨c, s.initialProperties (s.line c)⟩ } :=
    .allocate hc
  refine .onStore fun hs =>
    ⟨⟨hs.pushInstance (hR.change hs hchange).1 (hs.values.initialProperties _) hc, hchange.after hs⟩, ?_⟩
  change s.instances.size < (s.instances.push _).size
  rw [Array.size_push]
  exact Nat.lt_succ_self _

end Writing

/-! ### Arrays and native functions -/

section Arrays

variable {v : Value}

theorem keeps_newArray {values : Array Value} (h : ∀ v ∈ values, R.Good s v) :
    R.Keeps (fun _ _ => True) s (Run.onStore (Store.newArray values)) (Run.onStore (Store.newArray values)) := by
  have hchange : R.Change s { s with arrays := s.arrays.push values } := .arrays _
  refine .onStore fun hs => ⟨⟨hs.arrays (hR.change hs hchange).1 ?_, hchange.after hs⟩, trivial⟩
  exact forall_mem_push hs.values.arrays h

private theorem keeps_putElements {a : ArrayId} {f : Array Value → Array Value}
    (hf : ∀ b, (∀ v ∈ b, R.Good s v) → ∀ v ∈ f b, R.Good s v) :
    R.Keeps (fun _ _ => True) s (Run.modifyStore (·.putElements a f)) (Run.modifyStore (·.putElements a f)) := by
  have hchange : R.Change s (s.putElements a f) := .arrays _
  refine (Keeps.modifyStore fun hs => ⟨hs.arrays (hR.change hs hchange).1 ?_, hchange.after hs⟩).weaken
    fun _ _ _ _ _ => trivial
  exact forall_mem_modify hs.values.arrays fun b hb => hf b (hs.values.arrays b hb)

theorem keeps_element (hv : R.Good s v) (place : Value) :
    R.Keeps R.Good s (Run.element v place) (Run.element v place) := by
  refine .ofInv fun hs => ?_
  cases v with
  | array a =>
    refine .look ?_
    rintro m rfl
    refine .pure ?_
    unfold Run.elementOf
    dsimp only
    split
    · exact getD_of_forall (hs.values.elements a) (d := Value.null) (by trivial) _
    · trivial
  | string text =>
    unfold Run.element
    dsimp only
    cases Run.place? place text.length with
    | none => exact .pure trivial
    | some i =>
      refine .pure ?_
      cases Text.charAt? text i <;> trivial
  | _ => exact .pure trivial

theorem keeps_setElement {a : ArrayId} {place : Value} (hv : R.Good s v) :
    R.Keeps (fun _ _ => True) s (Run.setElement a place v) (Run.setElement a place v) := by
  unfold Run.setElement
  refine .look fun m _ => ?_
  split
  · refine keeps_putElements fun b hb w hw => ?_
    rcases Array.mem_or_eq_of_mem_setIfInBounds hw with hw | rfl
    · exact hb w hw
    · exact hv
  · exact .quiet (Run.quiet_debug _ (.bind (Run.quiet_text place) fun _ _ => .pure trivial)) fun _ _ => trivial

theorem keeps_native {n : Native} (hn : R.Good s (.native n)) (args : List Value) :
    R.Keeps R.Good s (Run.native n args) (Run.native n args) := by
  cases n with
  | clock => exact .quiet Run.quiet_clock fun _ => good_of_isData
  | array =>
    refine .bind (.quiet (Q := fun _ _ => True) (Run.quiet_arraySize args) fun _ _ => trivial) fun s' size _ _ _ => ?_
    refine .bind (keeps_newArray fun v hv => ?_) fun _ _ _ _ _ => .pure trivial
    rw [(Array.mem_replicate.1 hv).2]
    trivial
  | readLine => exact .quiet Run.quiet_readLine fun _ => good_of_isData
  | printLine => exact .quiet (Run.quiet_printLine args) fun _ => good_of_isData
  | int => exact .quiet (Run.quiet_int args) fun _ => good_of_isData
  | alloc c => exact keeps_allocate hn
  | init i => exact .pure hn

theorem mem_of_mem_pop {a : Array α} {x : α} (h : x ∈ a.pop) : x ∈ a := by
  rw [← Array.mem_toList_iff, Array.toList_pop] at h
  exact Array.mem_toList_iff.1 ((List.dropLast_sublist _).mem h)

theorem keeps_builtin (b : Builtin) : R.Keeps R.Good s (Run.builtin b) (Run.builtin b) := by
  rw [Run.builtin_eq_handler]
  refine .ofInv fun hs => ?_
  cases b with
  | arrayCount a => exact .look fun m _ => .pure trivial
  | arrayPop a =>
    refine .look ?_
    rintro m rfl
    have hlast : R.Good m.store ((m.store.elements a).back?.getD .null) := by
      cases hback : (m.store.elements a).back? with
      | none => trivial
      | some v => exact hs.values.elements a v (Array.mem_of_back? hback)
    refine .bind (keeps_putElements fun b hb w hw => hb w (mem_of_mem_pop hw)) fun s' _ _ hafter _ => ?_
    exact .pure (hlast.mono hs hafter)
  | stringCount text => exact .pure trivial

end Arrays

/-! ### Classes -/

/-- What lies above a class: nothing, or the line of a class. -/
def IsLineage (s : Store) (l : List ClassId) : Prop :=
  l = [] ∨ ∃ c : ClassId, c.index < s.classes.size ∧ l = s.line c

omit hR in
theorem IsLineage.mono {l : List ClassId} (h : IsLineage s l) (hafter : R.After s s') : IsLineage s' l := by
  rcases h with h | ⟨c, hc, h⟩
  · exact .inl h
  · exact .inr ⟨c, Nat.lt_of_lt_of_le hc hafter.later.classes, h.trans (hafter.later.line hc).symm⟩

theorem keeps_superclassOf {v : Value} (hv : R.Good s v) :
    R.Keeps IsLineage s (Run.superclassOf x v) (Run.superclassOf x v) := by
  cases v with
  | classRef c =>
    refine .look ?_
    rintro m rfl
    exact .pure (.inr ⟨c, hv, rfl⟩)
  | _ =>
    refine .bind (Q := fun _ _ => True) (.quiet (Run.quiet_debug _
      (.bind (Run.quiet_text _) fun _ _ => .pure trivial))
      fun _ _ => trivial) fun _ _ _ _ _ => .pure (.inl rfl)

/-- A new class is bound to its name. -/
theorem keeps_makeClass {name : Name} {superclass : Option Ref} {methods : List FunctionDecl}
    {properties : List VarDecl} {lineage : List ClassId} {initial : Bindings Value} (henv : R.Follows s env p)
    (hok : R.ok ⟨.stmt (.classDef name superclass methods properties), p⟩) (hl : IsLineage s lineage)
    (hb : initial.All (R.Good s)) :
    R.Keeps (fun _ _ => True) s (Run.makeClass env name.text lineage initial)
      (Run.makeClass env name.text lineage initial) := by
  have hchange : R.Change s { s with classes := s.classes.push ⟨name.text, lineage, initial, [("alloc", .alloc)]⟩ } :=
    .newClass hok
  refine .ofInv fun hs => .bind (Q := fun s' (c : ClassId) => c.index < s'.classes.size)
    (.onStore fun hs => ⟨⟨hs.pushClass (hR.change hs hchange).1 hb rfl hl, hchange.after hs⟩, ?_⟩)
    fun s' c hs' hafter hc => ?_
  · change s.classes.size < (s.classes.push _).size
    rw [Array.size_push]
    exact Nat.lt_succ_self _
  · have hx : R.free name.text := hR.binds hok _ List.mem_cons_self
    refine (keeps_assignNearest (v := .classRef c) (henv.mono hs hafter) hx hc (.pure (a := ()) trivial)).congr ?_ ?_
    all_goals
      rintro m rfl
      exact result_assign_getD env name.text (.classRef c) m

omit hR in
/-- The methods of an implementation can be run once they are bound. -/
theorem goodMethod_table {c : ClassId} {name : String} {methods : List FunctionDecl} (hname : R.implements s c name)
    (henv : R.Follows s env p) (hparams : ∀ d ∈ methods, ∀ x ∈ paramNames d.params, R.free x)
    (hbodies : ∀ d ∈ methods, ∀ a ∈ Stmt.placesList d.body (none :: some name :: p), R.ok a) :
    Bindings.All (R.GoodMethod s c)
      (Run.methodTable env methods) :=
  methodTable_all fun d hd => ⟨name, hname, .inr ⟨p, henv, hparams d hd, hbodies d hd⟩⟩

/-- An implementation gives its methods to a class. -/
theorem keeps_implement {name : Name} {methods : List FunctionDecl} (henv : R.Follows s env p)
    (hok : ∀ a ∈ Stmt.places (.classImpl name methods) p, R.ok a) :
    R.Keeps (fun _ _ => True) s (Run.implement env name.text methods) (Run.implement env name.text methods) := by
  obtain ⟨hhere, hbodies⟩ := List.forall_mem_cons.1 hok
  rw [FunctionDecl.forall_placesList] at hbodies
  rw [Run.implement_eq]
  refine .ofInv fun hs => .bind keeps_readName fun s' v hs' hafter _ => ?_
  cases v with
  | classRef c =>
    refine (Keeps.modifyStore fun hs' => ?_).weaken fun _ _ _ _ _ => trivial
    have hchange : ∀ table, R.Change s' (s'.putMethods c table) := fun _ => .implement hhere
    refine ⟨hs'.putMethods (hR.change hs' (hchange _)).1 fun q hq _ => ?_, (hchange _).after hs'⟩
    refine goodMethod_table (hR.implements_of_ok hhere s' c) (henv.mono hs hafter) (fun d hd x hx => ?_) hbodies q hq
    exact hR.binds hhere x (List.mem_flatMap.2 ⟨d, hd, hx⟩)
  | _ => exact .quiet (Run.quiet_debug _ (.pure trivial)) fun _ _ => trivial

end Regime

end ObjScript
