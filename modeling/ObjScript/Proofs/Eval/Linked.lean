import ObjScript.Proofs.Eval.Classes
import ObjScript.Proofs.Eval.Keeps
import ObjScript.Proofs.Store.Links

/-!
# Steps that keep the links

A store does not say which frame lies around which.  A linked store says it (`LinkedStore`): whatever chain is found
in it goes along its links.  A step that makes a frame gives it a link and leaves the other links as they are, so the
links only grow (`LinkedStore.Grows`).

`w.Keeps Q t u` says that `u`, started on the store of `w`, ends in a store that is linked as well, with links that
have grown from those of `w`, and that `t` does the same as `u` although it is watched by what these links grow to
later on.
-/

namespace ObjScript

/-- A store with the link of each of its frames. -/
structure LinkedStore where
  store : Store
  outer : FrameId → Option FrameId

namespace LinkedStore

/-- The links of the frames, and the superclass of each class. -/
def links (w : LinkedStore) : Links :=
  ⟨w.outer, w.store.superclass?⟩

/-- The chain goes along the links of frames that were made. -/
def IsChain (w : LinkedStore) (env : Env) : Prop :=
  Walk w.outer env ∧ ∀ f ∈ env, f.index < w.store.frames.size

/-- The value runs on a chain, or it is a class that was made. -/
def Good (w : LinkedStore) (v : Value) : Prop :=
  w.IsChain v.chain ∧ ∀ c, v = .classRef c → c.index < w.store.classes.size

/-- The method runs on a chain. -/
def GoodMethod (w : LinkedStore) (m : Method) : Prop :=
  w.IsChain m.chain

/-- All chains go along the links, and each link leads to what was made before. -/
structure Sound (w : LinkedStore) : Prop where
  values : w.store.Holds w.Good w.GoodMethod
  outer : ∀ f g, w.outer f = some g → g.index < f.index
  lineages : w.store.Lineages

/-- What was made keeps its links. -/
structure Grows (w x : LinkedStore) : Prop where
  frames : w.store.frames.size ≤ x.store.frames.size
  outer : ∀ f : FrameId, f.index < w.store.frames.size → x.outer f = w.outer f
  classes : w.store.classes.size ≤ x.store.classes.size
  lineage : ∀ c : ClassId, c.index < w.store.classes.size → (x.store.classOf c).lineage = (w.store.classOf c).lineage

/-- The links stay, the store is another one. -/
def withStore (w : LinkedStore) (s : Store) : LinkedStore :=
  { w with store := s }

/-- A new frame with its link. -/
def push (w : LinkedStore) (new : Frame) (outer : Option FrameId) : LinkedStore where
  store := { w.store with frames := w.store.frames.push new }
  outer := fun f => if f.index = w.store.frames.size then outer else w.outer f

/-- What a run is watched by: the links as they are in the end, and what it would be stopped with. -/
structure Watch where
  final : LinkedStore
  sound : final.Sound
  stop : Stop

section Growth

variable {w x y : LinkedStore} {env : Env}

theorem Grows.refl (w : LinkedStore) : w.Grows w :=
  ⟨Nat.le_refl _, fun _ _ => rfl, Nat.le_refl _, fun _ _ => rfl⟩

theorem Grows.trans (h : w.Grows x) (h' : x.Grows y) : w.Grows y where
  frames := Nat.le_trans h.frames h'.frames
  outer f hf := (h'.outer f (Nat.lt_of_lt_of_le hf h.frames)).trans (h.outer f hf)
  classes := Nat.le_trans h.classes h'.classes
  lineage c hc := (h'.lineage c (Nat.lt_of_lt_of_le hc h.classes)).trans (h.lineage c hc)

private theorem Grows.ofLater {t : Store} (h : w.store.Later (fun _ => False) t) : w.Grows (w.withStore t) :=
  ⟨h.frames, fun _ _ => rfl, h.classes, h.lineage⟩

theorem IsChain.mono (h : w.IsChain env) (hg : w.Grows x) : x.IsChain env := by
  constructor
  · exact h.1.congr fun f hf => hg.outer f (h.2 f hf)
  · exact fun f hf => Nat.lt_of_lt_of_le (h.2 f hf) hg.frames

theorem Good.mono {v : Value} (h : w.Good v) (hg : w.Grows x) : x.Good v :=
  ⟨h.1.mono hg, fun c hc => Nat.lt_of_lt_of_le (h.2 c hc) hg.classes⟩

theorem isChain_nil (w : LinkedStore) : w.IsChain [] :=
  ⟨.nil, List.forall_mem_nil _⟩

/-- Going outward leaves a chain. -/
private theorem IsChain.tail {f : FrameId} (h : w.IsChain (f :: env)) : w.IsChain env := by
  obtain ⟨_ | ⟨-, henv⟩, hmade⟩ := h
  exact ⟨henv, (List.forall_mem_cons.1 hmade).2⟩

theorem good_function {f : Closure} (h : w.IsChain f.env) : w.Good (.function f) :=
  ⟨h, nofun⟩

theorem good_block {b : BlockClosure} (h : w.IsChain b.env) : w.Good (.block b) :=
  ⟨h, nofun⟩

theorem good_classRef {c : ClassId} (h : c.index < w.store.classes.size) : w.Good (.classRef c) :=
  ⟨w.isChain_nil, fun _ hc => by cases hc; exact h⟩

private theorem good_object (w : LinkedStore) (i : InstanceId) : w.Good (.object i) :=
  ⟨w.isChain_nil, nofun⟩

theorem good_native (w : LinkedStore) (n : Native) : w.Good (.native n) :=
  ⟨w.isChain_nil, nofun⟩

theorem good_of_isData {v : Value} (hv : v.IsData) : w.Good v := by
  match v, hv with
  | .null, _ | .number _, _ | .string _, _ | .bool _, _ | .array _, _ | .builtin _, _ => exact ⟨w.isChain_nil, nofun⟩

/-- The store was changed without any change of the links. -/
private theorem Sound.withStore (hw : w.Sound) {t : Store} (h : w.store.Later (fun _ => False) t)
    (hvalues : t.Holds w.Good w.GoodMethod) (hl : t.Lineages) : (w.withStore t).Sound where
  values := hvalues.mono (fun _ hv => hv.mono (.ofLater h)) fun _ hm => IsChain.mono hm (.ofLater h)
  outer := hw.outer
  lineages := hl

private theorem grows_push (w : LinkedStore) (new : Frame) (outer : Option FrameId) : w.Grows (w.push new outer) where
  frames := by simp [push]
  outer f hf := if_neg (Nat.ne_of_lt hf)
  classes := Nat.le_refl _
  lineage _ _ := rfl

/-- A new frame is put in front of a chain. -/
private theorem IsChain.push (h : w.IsChain env) (new : Frame) :
    (w.push new env.head?).IsChain (⟨w.store.frames.size⟩ :: env) := by
  have hrest : (w.push new env.head?).IsChain env := h.mono (w.grows_push new _)
  constructor
  · exact .cons (if_pos rfl) hrest.1
  · refine List.forall_mem_cons.2 ⟨?_, hrest.2⟩
    simp [LinkedStore.push]

private theorem Sound.push (hw : w.Sound) {new : Frame} (hb : new.bindings.All w.Good) (henv : w.IsChain env) :
    (w.push new env.head?).Sound where
  values := (hw.values.pushFrame hb).mono (fun _ hv => hv.mono (w.grows_push new _))
    fun _ hm => IsChain.mono hm (w.grows_push new _)
  outer := by
    intro f g hg
    unfold LinkedStore.push at hg
    dsimp only at hg
    split at hg
    · next hf =>
      rw [hf]
      exact henv.2 g (List.mem_of_mem_head? hg)
    · exact hw.outer f g hg
  lineages := hw.lineages

end Growth

/-! ### Steps -/

section Keeps

variable {α β : Type} {w : LinkedStore} {env : Env} {x : String}

/-- The step keeps the links, the result has the property, and the watched step does the same, whatever the links
grow to. -/
def Keeps (w : LinkedStore) (Q : LinkedStore → α → Prop) (t : Watch → Run α) (u : Run α) : Prop :=
  w.Sound → ∀ m : Machine, m.store = w.store → ∃ r m' outer', u.result m = (r, m') ∧
    w.Grows ⟨m'.store, outer'⟩ ∧ Sound ⟨m'.store, outer'⟩ ∧ (∀ a, r = .ok a → Q ⟨m'.store, outer'⟩ a) ∧
    ∀ y : Watch, Grows ⟨m'.store, outer'⟩ y.final → (t y).result m = (r, m')

namespace Keeps

variable {Q : LinkedStore → α → Prop} {P : LinkedStore → β → Prop} {t : Watch → Run α} {u : Run α}

theorem ofSound (h : w.Sound → w.Keeps Q t u) : w.Keeps Q t u :=
  fun hw => h hw hw

/-- Only the results on machines with the store count, and only links that have grown. -/
theorem congr {t' : Watch → Run α} {u' : Run α} (h : w.Keeps Q t u)
    (ht : ∀ y : Watch, w.Grows y.final → ∀ m : Machine, m.store = w.store → (t' y).result m = (t y).result m)
    (hu : ∀ m : Machine, m.store = w.store → u'.result m = u.result m) : w.Keeps Q t' u' := by
  intro hw m hm
  obtain ⟨r, m', outer', hr, hg, hsound, hQ, hsame⟩ := h hw m hm
  refine ⟨r, m', outer', (hu m hm).trans hr, hg, hsound, hQ, fun y hy => ?_⟩
  rw [ht y (hg.trans hy) m hm, hsame y hy]

/-- Another way to take the same step. -/
private theorem same {u' : Run α} (h : w.Keeps Q (fun _ => u) u)
    (hu : ∀ m : Machine, m.store = w.store → u'.result m = u.result m) : w.Keeps Q (fun _ => u') u' :=
  h.congr (fun _ _ => hu) hu

/-- A step that looks at the machine. -/
private theorem look {t : Watch → Machine → Run α} {u : Machine → Run α}
    (h : ∀ m : Machine, m.store = w.store → w.Keeps Q (fun y => t y m) (u m)) :
    w.Keeps Q (fun y => get >>= t y) (get >>= u) :=
  fun hw m hm => h m hm hw m hm

theorem pure {a : α} (ha : Q w a) : w.Keeps Q (fun _ => pure a) (pure a) := by
  rintro hw m hm
  obtain ⟨s, outer⟩ := w
  obtain rfl : m.store = s := hm
  exact ⟨.ok a, m, outer, rfl, .refl _, hw, fun _ h => Except.ok.inj h ▸ ha, fun _ _ => rfl⟩

theorem quiet {P : α → Prop} (h : Run.Quiet P u) (hP : ∀ a, P a → Q w a) : w.Keeps Q (fun _ => u) u := by
  intro hw m hm
  obtain ⟨r, m', hu, hstore, hr⟩ := h m
  obtain ⟨s, outer⟩ := w
  obtain rfl : m'.store = s := hstore.trans hm
  exact ⟨r, m', outer, hu, .refl _, hw, fun a ha => hP a (hr a ha), fun _ _ => hu⟩

theorem throw (e : Stop) : w.Keeps Q (fun _ => throw e) (throw e) :=
  .quiet (P := fun _ => False) (.throw e) fun _ h => h.elim

theorem bind {k : Watch → α → Run β} {l : α → Run β} (h : w.Keeps Q t u)
    (hk : ∀ x a, x.Sound → w.Grows x → Q x a → x.Keeps P (fun y => k y a) (l a)) :
    w.Keeps P (fun y => t y >>= k y) (u >>= l) := by
  intro hw m hm
  obtain ⟨r, m₁, outer₁, hu, hg₁, hsound₁, ha, ht⟩ := h hw m hm
  cases r with
  | error e =>
    refine ⟨.error e, m₁, outer₁, ?_, hg₁, hsound₁, nofun, fun y hy => ?_⟩
    · rw [Run.result_bind, hu]
    · rw [Run.result_bind, ht y hy]
  | ok a =>
    obtain ⟨r, m₂, outer₂, hl, hg₂, hsound₂, hb, hk⟩ := hk _ a hsound₁ hg₁ (ha a rfl) hsound₁ m₁ rfl
    refine ⟨r, m₂, outer₂, ?_, hg₁.trans hg₂, hsound₂, hb, fun y hy => ?_⟩
    · rw [Run.result_bind, hu]
      exact hl
    · rw [Run.result_bind, ht y (hg₂.trans hy)]
      exact hk y hy

/-- A step on the store that makes no frame. -/
private theorem onStore {step : WithStore α} (h : w.Sound → w.store.Later (fun _ => False) (step.run w.store).2 ∧
      (step.run w.store).2.Holds w.Good w.GoodMethod ∧ (step.run w.store).2.Lineages ∧
      Q (w.withStore (step.run w.store).2) (step.run w.store).1) :
    w.Keeps Q (fun _ => Run.onStore step) (Run.onStore step) := by
  intro hw m hm
  obtain ⟨s, outer⟩ := w
  obtain rfl : m.store = s := hm
  obtain ⟨hlater, hvalues, hl, ha⟩ := h hw
  exact ⟨.ok (step.run m.store).1, { m with store := (step.run m.store).2 }, outer, rfl, .ofLater hlater,
    hw.withStore hlater hvalues hl, fun _ h => Except.ok.inj h ▸ ha, fun _ _ => rfl⟩

/-- A change of the store that makes no frame and no class. -/
private theorem modifyStore {f : Store → Store} (hlater : w.store.Later (fun _ => False) (f w.store))
    (hsize : (f w.store).classes.size = w.store.classes.size)
    (hvalues : w.Sound → (f w.store).Holds w.Good w.GoodMethod) :
    w.Keeps (fun _ _ => True) (fun _ => Run.modifyStore f) (Run.modifyStore f) := by
  have hstep : w.Keeps (fun _ _ => True) (fun _ => Run.onStore (modify f)) (Run.onStore (modify f)) :=
    .onStore fun hw => ⟨hlater, hvalues hw, hw.lineages.ofLater hlater hsize, trivial⟩
  exact hstep.same fun _ _ => rfl

end Keeps

/-! ### Frames -/

/-- Making a frame in front of a chain. -/
theorem keeps_newFrame (new : Frame) (hb : new.bindings.All w.Good) (henv : w.IsChain env) :
    w.Keeps (fun x f => x.IsChain (f :: env)) (fun _ => Run.onStore (Store.newFrame new))
      (Run.onStore (Store.newFrame new)) := by
  intro hw m hm
  have hpush := hw.push hb henv
  have hgrows := w.grows_push new env.head?
  have hchain := henv.push new
  obtain ⟨s, outer⟩ := w
  obtain rfl : m.store = s := hm
  exact ⟨_, _, _, rfl, hgrows, hpush, fun f hf => Except.ok.inj hf ▸ hchain, fun _ _ => rfl⟩

/-- A copy of a chain. -/
theorem keeps_snapshot (h : w.IsChain env) :
    w.Keeps (fun x copy => x.IsChain copy) (fun _ => Run.onStore (Store.snapshot (some .globals) env))
      (Run.onStore (Store.snapshot (some .globals) env)) := by
  induction env with
  | nil => exact .onStore fun hw => ⟨.refl _, hw.values, hw.lineages, h⟩
  | cons f outer ih =>
    by_cases hf : f = .globals
    · have hrun : (Store.snapshot (some .globals) (f :: outer)) = Pure.pure (f :: outer) := by
        rw [Store.snapshot, if_pos (congrArg some hf)]
      rw [hrun]
      exact .onStore fun hw => ⟨.refl _, hw.values, hw.lineages, h⟩
    · refine Keeps.same ?_ fun m _ => result_snapshot_cons hf outer m
      refine .bind (ih h.tail) fun x copies hx _ hcopies => ?_
      have hcopy : x.Keeps (fun y copy => y.IsChain (copy :: copies)) (fun _ => Run.onStore (Store.copyFrame f))
          (Run.onStore (Store.copyFrame f)) := by
        refine (keeps_newFrame (x.store.frame f) (hx.values.frame f) hcopies).same fun m hm => ?_
        rw [result_copyFrame, hm]
      exact .bind hcopy fun y copy _ _ hchain => .pure hchain

/-! ### Methods and members -/

/-- A method runs on its chain with one more frame once it is bound. -/
private theorem keeps_bound {f : Closure} (new : Frame) (hb : new.bindings.All w.Good) (hf : w.IsChain f.env) :
    w.Keeps Good (fun _ => Run.onStore (Store.newFrame new) >>= fun frame =>
        Pure.pure (Value.function { f with env := frame :: f.env }))
      (Run.onStore (Store.newFrame new) >>= fun frame =>
        Pure.pure (Value.function { f with env := frame :: f.env })) :=
  .bind (keeps_newFrame new hb hf) fun _ _ _ _ hchain => .pure (good_function hchain)

private theorem keeps_bindMethod {f : Closure} {i : InstanceId} {superclass : Option ClassId} (hf : w.IsChain f.env)
    (hsuper : ∀ c ∈ superclass, c.index < w.store.classes.size) :
    w.Keeps Good (fun _ => Run.onStore (Store.bindMethod f i superclass))
      (Run.onStore (Store.bindMethod f i superclass)) := by
  have hb : (Store.boundFrame i superclass).bindings.All w.Good := by
    refine List.forall_mem_cons.2 ⟨w.good_object i, fun q hq => ?_⟩
    cases superclass with
    | none => cases hq
    | some c =>
      rw [List.mem_singleton.1 hq]
      exact good_classRef (hsuper c rfl)
  exact (keeps_bound (Store.boundFrame i superclass) hb hf).same fun _ _ => rfl

private theorem keeps_bindStatic {f : Closure} {c : ClassId} (hf : w.IsChain f.env)
    (hc : c.index < w.store.classes.size) :
    w.Keeps Good (fun _ => Run.onStore (Store.bindStatic f c)) (Run.onStore (Store.bindStatic f c)) := by
  have hb : Bindings.All w.Good [("self", .classRef c)] := List.forall_mem_singleton.2 (good_classRef hc)
  exact (keeps_bound ⟨[("self", .classRef c)], none⟩ hb hf).same fun _ _ => rfl

/-- What a member stands for is sound. -/
def GoodMember (w : LinkedStore) : Member → Prop
  | .value v => w.Good v
  | .method f _ superclass => w.IsChain f.env ∧ ∀ c ∈ superclass, c.index < w.store.classes.size

/-- A method that is found on the line of a class, and the superclass of the class that defines it. -/
private theorem Sound.findMethod? (hw : w.Sound) {visible : Method → Bool} {c : ClassId} {found : FoundMethod}
    (h : w.store.findMethod? visible x (w.store.line c) = some found) :
    w.GoodMethod found.method ∧ ∀ k ∈ found.superclass, k.index < w.store.classes.size := by
  refine ⟨hw.values.findMethod? h, fun k hk => ?_⟩
  obtain ⟨below, above, hline, hsuper, hmethod, -⟩ := Store.findMethod?_eq_some.1 h
  -- a class with a method was made, and what lies above it was made before
  have howner : found.owner.index < w.store.classes.size := by
    by_contra hsize
    have hnone : (w.store.classOf found.owner).methods = [] := by
      rw [Store.classOf, Array.getD_eq_getD_getElem?, Array.getElem?_eq_none (Nat.le_of_not_lt hsize)]
      rfl
    rw [hnone] at hmethod
    cases hmethod
  have hk : k ∈ (w.store.classOf found.owner).lineage := by
    rw [hw.lineages.lineage_eq hline]
    exact List.mem_of_mem_head? (hsuper ▸ hk)
  exact Nat.lt_trans (hw.lineages.index_lt hk) howner

private theorem Sound.member? (hw : w.Sound) {i : InstanceId} {found : Member}
    (h : w.store.member? i x = some found) :
    w.GoodMember found := by
  unfold Store.member? at h
  split at h
  · next v hv =>
    cases h
    exact (hw.values.object i).get? hv
  · split at h
    · next hfound =>
      cases h
      exact hw.findMethod? hfound
    · cases h
      exact w.good_native _
    · split at h
      · cases h
        exact w.good_native _
      · cases h

private theorem Sound.lookup? (hw : w.Sound) {found : Member} (h : w.store.lookup? env x = some found) :
    w.GoodMember found := by
  obtain ⟨f, -, hf⟩ := List.exists_of_findSome?_eq_some h
  unfold Store.own? at hf
  split at hf
  · next v hv =>
    cases hf
    exact (hw.values.frame f).get? hv
  · split at hf
    · exact hw.member? hf
    · cases hf

private theorem keeps_ofMember (found : Option Member) (h : ∀ k ∈ found, w.GoodMember k) :
    w.Keeps Good (fun _ => Run.ofMember found) (Run.ofMember found) := by
  match found, h with
  | none, _ => exact .pure (good_of_isData trivial)
  | some (.value v), h => exact (Keeps.pure (Q := Good) (a := v) (h _ rfl)).same fun _ _ => rfl
  | some (.method f i superclass), h => exact keeps_bindMethod (h _ rfl).1 (h _ rfl).2

theorem keeps_readName : w.Keeps Good (fun _ => Run.readName env x) (Run.readName env x) := by
  refine .ofSound fun hw => ?_
  refine (keeps_ofMember (w.store.lookup? env x) fun _ hk => hw.lookup? hk).same fun m hm => ?_
  rw [result_readName, hm]

theorem keeps_instanceMember {i : InstanceId} :
    w.Keeps Good (fun _ => Run.instanceMember i x) (Run.instanceMember i x) := by
  refine .ofSound fun hw => ?_
  refine (keeps_ofMember (w.store.member? i x) fun _ hk => hw.member? hk).same fun m hm => ?_
  rw [result_instanceMember, hm]

/-- A method that was found through a class. -/
private theorem keeps_staticMethod {found : Option FoundMethod} {c : ClassId} (hc : c.index < w.store.classes.size)
    (h : ∀ k ∈ found, w.GoodMethod k.method) :
    w.Keeps Good (fun _ => Run.staticMethod found c) (Run.staticMethod found c) := by
  match found, h with
  | none, _ => exact .pure (good_of_isData trivial)
  | some ⟨_, .alloc, _⟩, _ => exact .pure (w.good_native _)
  | some ⟨_, .closure f, _⟩, h => exact keeps_bindStatic (h _ rfl) hc

private theorem keeps_classMember {c : ClassId} (hc : c.index < w.store.classes.size) :
    w.Keeps Good (fun _ => Run.classMember c x) (Run.classMember c x) := by
  refine .ofSound fun hw => ?_
  have hfound : ∀ k ∈ w.store.findMethod? Method.isStatic x (w.store.line c), w.GoodMethod k.method :=
    fun _ hk => (hw.findMethod? hk).1
  refine (keeps_staticMethod hc hfound).same fun m hm => ?_
  rw [result_classMember, hm]

/-- A member that is reached through `super`. -/
private theorem keeps_superMember {c : ClassId} (hc : c.index < w.store.classes.size) :
    w.Keeps Good (fun _ => Run.superMember env c x) (Run.superMember env c x) := by
  refine .ofSound fun hw => ?_
  generalize hfound : w.store.findMethod? (fun _ => true) x (w.store.line c) = found
  have hgood : ∀ k ∈ found, w.GoodMethod k.method ∧ ∀ d ∈ k.superclass, d.index < w.store.classes.size :=
    fun k hk => hw.findMethod? (hfound.trans hk)
  have hstep : w.Keeps Good (fun _ => Run.readName env "self" >>= Run.ofSuper found c x)
      (Run.readName env "self" >>= Run.ofSuper found c x) := by
    refine .bind keeps_readName fun y self _ hg _ => ?_
    have hstatic : y.Keeps Good (fun _ => Run.staticMethod found c) (Run.staticMethod found c) :=
      keeps_staticMethod (Nat.lt_of_lt_of_le hc hg.classes) fun k hk => IsChain.mono (hgood k hk).1 hg
    cases self with
    | object i =>
      match found, hgood with
      | none, _ =>
        change y.Keeps Good (fun _ => Pure.pure (if x = "init" then .native (.init i) else .null))
          (Pure.pure (if x = "init" then .native (.init i) else .null))
        split
        · exact .pure (y.good_native _)
        · exact .pure (good_of_isData trivial)
      | some ⟨_, .alloc, _⟩, _ => exact .pure (y.good_native _)
      | some ⟨_, .closure f, superclass⟩, hgood =>
        have hchain : w.IsChain f.env := (hgood _ rfl).1
        exact keeps_bindMethod (hchain.mono hg)
          fun d hd => Nat.lt_of_lt_of_le ((hgood _ rfl).2 d hd) hg.classes
    | _ => exact hstatic
  refine hstep.same fun m hm => ?_
  rw [result_superMember, hm, hfound]

/-- The member of a value. -/
theorem keeps_member {v : Value} {viaSuper : Bool} (hv : w.Good v) :
    w.Keeps Good (fun _ => Run.member env viaSuper v x) (Run.member env viaSuper v x) := by
  cases v with
  | object i => exact keeps_instanceMember
  | classRef c =>
    have hc := hv.2 c rfl
    change w.Keeps Good (fun _ => if viaSuper then Run.superMember env c x else Run.classMember c x)
      (if viaSuper then Run.superMember env c x else Run.classMember c x)
    split
    · exact keeps_superMember hc
    · exact keeps_classMember hc
  | _ => exact .pure (good_of_isData (Run.isData_builtinMember _ x))

/-! ### Writing -/

private theorem keeps_defineAt {f : FrameId} {v : Value} (hv : w.Good v) :
    w.Keeps (fun _ _ => True) (fun _ => Run.modifyStore (·.define f x v)) (Run.modifyStore (·.define f x v)) := by
  have hsize : (w.store.define f x v).classes.size = w.store.classes.size := by
    rcases w.store.define_cases f x v with h | ⟨i, -, -, -, h⟩
    · rw [h]
      rfl
    · rw [h]
      rfl
  exact .modifyStore (.define _ f v id) hsize fun hw => hw.values.define hv f x

theorem keeps_define {v : Value} (hv : w.Good v) :
    w.Keeps (fun _ _ => True) (fun _ => Run.define env x v) (Run.define env x v) := by
  cases env with
  | nil => exact .modifyStore (.refl _) rfl fun hw => hw.values
  | cons f outer => exact keeps_defineAt hv

/-- A name is bound in the nearest frame that owns it. -/
private theorem keeps_assignNearest (env : Env) (x : String) {v : Value} {missing : Run Unit} (hv : w.Good v)
    (hmissing : w.Keeps (fun _ _ => True) (fun _ => missing) missing) :
    w.Keeps (fun _ _ => True)
      (fun _ => match env.find? (w.store.owns · x) with
        | some f => Run.modifyStore (·.define f x v)
        | none => missing)
      (match env.find? (w.store.owns · x) with
        | some f => Run.modifyStore (·.define f x v)
        | none => missing) := by
  cases env.find? (w.store.owns · x) with
  | none => exact hmissing
  | some f => exact keeps_defineAt hv

theorem keeps_assign {ref : Ref} {v : Value} (hv : w.Good v) :
    w.Keeps (fun _ _ => True) (fun _ => Run.assign env ref v) (Run.assign env ref v) := by
  obtain ⟨name, depth⟩ := ref
  cases depth with
  | some d => exact keeps_define hv
  | none =>
    have hdropped : w.Keeps (fun _ _ => True)
        (fun _ => Run.debug .assignments (return "assignment to undeclared " ++ Text.quoted name.text ++ " dropped"))
        (Run.debug .assignments (return "assignment to undeclared " ++ Text.quoted name.text ++ " dropped")) :=
      .quiet (Run.quiet_debug _ (.pure trivial)) fun _ _ => trivial
    refine (keeps_assignNearest env name.text hv hdropped).same ?_
    obtain ⟨s, outer⟩ := w
    rintro m rfl
    exact result_assign_none env name v m

theorem keeps_putProperty {i : InstanceId} {v : Value} (hv : w.Good v) :
    w.Keeps (fun _ _ => True) (fun _ => Run.modifyStore (·.putProperty i x v))
    (Run.modifyStore (·.putProperty i x v)) :=
  .modifyStore (.putProperty _ i x v) rfl fun hw => hw.values.putProperty hv i x

theorem keeps_allocate (c : ClassId) :
    w.Keeps Good (fun _ => Run.onStore (Store.allocate c)) (Run.onStore (Store.allocate c)) :=
  .onStore fun hw =>
    ⟨.pushInstance _ _, hw.values.pushInstance (hw.values.initialProperties _), hw.lineages, good_object _ _⟩

/-! ### Arrays and native functions -/

theorem keeps_newArray {values : Array Value} (h : ∀ v ∈ values, w.Good v) :
    w.Keeps (fun _ _ => True) (fun _ => Run.onStore (Store.newArray values)) (Run.onStore (Store.newArray values)) :=
  .onStore fun hw => ⟨.arrays _ _, hw.values.pushArray h, hw.lineages, trivial⟩

private theorem keeps_putElements {a : ArrayId} {f : Array Value → Array Value}
    (hf : ∀ b, (∀ v ∈ b, w.Good v) → ∀ v ∈ f b, w.Good v) :
    w.Keeps (fun _ _ => True) (fun _ => Run.modifyStore (·.putElements a f)) (Run.modifyStore (·.putElements a f)) :=
  .modifyStore (.arrays _ _) rfl fun hw => hw.values.putElements a hf

theorem keeps_element (v place : Value) : w.Keeps Good (fun _ => Run.element v place) (Run.element v place) := by
  refine .ofSound fun hw => ?_
  cases v with
  | array a =>
    refine .look fun m hm => .pure ?_
    rw [hm]
    unfold Run.elementOf
    dsimp only
    split
    · exact getD_of_forall (hw.values.elements a) (good_of_isData (v := .null) trivial) _
    · exact good_of_isData trivial
  | string text =>
    unfold Run.element
    dsimp only
    cases Run.place? place text.length with
    | none => exact .pure (good_of_isData trivial)
    | some i =>
      refine .pure (good_of_isData ?_)
      cases Text.charAt? text i <;> trivial
  | _ => exact .pure (good_of_isData trivial)

theorem keeps_setElement {a : ArrayId} {place v : Value} (hv : w.Good v) :
    w.Keeps (fun _ _ => True) (fun _ => Run.setElement a place v) (Run.setElement a place v) := by
  unfold Run.setElement
  refine .look fun m _ => ?_
  split
  · refine keeps_putElements fun b hb u hu => ?_
    rcases Array.mem_or_eq_of_mem_setIfInBounds hu with hu | rfl
    · exact hb u hu
    · exact hv
  · exact .quiet (Run.quiet_debug _ (.bind (Run.quiet_text place) fun _ _ => .pure trivial)) fun _ _ => trivial

theorem keeps_native (n : Native) (args : List Value) :
    w.Keeps Good (fun _ => Run.native n args) (Run.native n args) := by
  cases n with
  | clock => exact .quiet Run.quiet_clock fun _ => good_of_isData
  | array =>
    have hsize : w.Keeps (fun _ _ => True) (fun _ => Run.arraySize args) (Run.arraySize args) :=
      .quiet (Run.quiet_arraySize args) fun _ _ => trivial
    refine .bind hsize fun y size _ _ _ => ?_
    refine .bind (keeps_newArray fun v hv => ?_) fun _ _ _ _ _ => .pure (good_of_isData trivial)
    rw [(Array.mem_replicate.1 hv).2]
    exact good_of_isData trivial
  | readLine => exact .quiet Run.quiet_readLine fun _ => good_of_isData
  | printLine => exact .quiet (Run.quiet_printLine args) fun _ => good_of_isData
  | int => exact .quiet (Run.quiet_int args) fun _ => good_of_isData
  | alloc c => exact keeps_allocate c
  | init i => exact .pure (w.good_object i)

theorem keeps_builtin (b : Builtin) : w.Keeps Good (fun _ => Run.builtin b) (Run.builtin b) := by
  rw [Run.builtin_eq_handler]
  refine .ofSound fun hw => ?_
  cases b with
  | arrayCount a => exact .look fun m _ => .pure (good_of_isData trivial)
  | arrayPop a =>
    refine .look fun m hm => ?_
    have hlast : w.Good ((m.store.elements a).back?.getD .null) := by
      rw [hm]
      cases hback : (w.store.elements a).back? with
      | none => exact good_of_isData trivial
      | some v => exact hw.values.elements a v (Array.mem_of_back? hback)
    refine .bind (keeps_putElements fun b hb v hv => hb v (Regime.mem_of_mem_pop hv)) fun y _ _ hg _ => ?_
    exact .pure (hlast.mono hg)
  | stringCount text => exact .pure (good_of_isData trivial)

/-! ### Classes -/

/-- What lies above a class: nothing, or the line of a class that was made. -/
def IsLineage (w : LinkedStore) (l : List ClassId) : Prop :=
  l = [] ∨ ∃ c : ClassId, c.index < w.store.classes.size ∧ l = w.store.line c

theorem IsLineage.mono {y : LinkedStore} {l : List ClassId} (h : w.IsLineage l) (hg : w.Grows y) : y.IsLineage l := by
  rcases h with h | ⟨c, hc, rfl⟩
  · exact .inl h
  · exact .inr ⟨c, Nat.lt_of_lt_of_le hc hg.classes, congrArg (List.cons c) (hg.lineage c hc).symm⟩

theorem keeps_superclassOf {v : Value} (hv : w.Good v) :
    w.Keeps IsLineage (fun _ => Run.superclassOf x v) (Run.superclassOf x v) := by
  cases v with
  | classRef c =>
    refine .look fun m hm => .pure (.inr ⟨c, hv.2 c rfl, ?_⟩)
    rw [hm]
  | _ =>
    refine .bind (Q := fun _ _ => True) (.quiet (P := fun _ => True) ?_ fun _ _ => trivial)
      fun _ _ _ _ _ => .pure (.inl rfl)
    exact Run.quiet_debug _ (.bind (Run.quiet_text _) fun _ _ => .pure trivial)

/-- A new class is bound to its name. -/
theorem keeps_makeClass {lineage : List ClassId} {initial : Bindings Value} (hl : w.IsLineage lineage)
    (hb : initial.All w.Good) :
    w.Keeps (fun _ _ => True) (fun _ => Run.makeClass env x lineage initial)
    (Run.makeClass env x lineage initial) := by
  have hnew : w.Keeps (fun y (c : ClassId) => c.index < y.store.classes.size)
      (fun _ => Run.onStore (Store.newClass x lineage initial)) (Run.onStore (Store.newClass x lineage initial)) :=
    .onStore fun hw => by
      have hm : Bindings.All w.GoodMethod [("alloc", .alloc)] := List.forall_mem_singleton.2 w.isChain_nil
      refine ⟨.pushClass _ _, hw.values.pushClass hb hm, hw.lineages.pushClass hl, ?_⟩
      change w.store.classes.size < (w.store.classes.push _).size
      simp
  refine .bind hnew fun y c _ _ hc => ?_
  refine (keeps_assignNearest env x (good_classRef hc) (.pure (a := ()) trivial)).same ?_
  obtain ⟨s, outer⟩ := y
  rintro m rfl
  exact result_assign_getD env x (.classRef c) m

/-- An implementation gives its methods to a class. -/
theorem keeps_implement {methods : List FunctionDecl} (henv : w.IsChain env) :
    w.Keeps (fun _ _ => True) (fun _ => Run.implement env x methods) (Run.implement env x methods) := by
  rw [Run.implement_eq]
  refine .bind keeps_readName fun y v _ hg _ => ?_
  cases v with
  | classRef c =>
    refine .modifyStore (.putMethods _ c _) Array.size_modify fun hy => hy.values.putMethods c ?_
    exact methodTable_all fun _ _ => henv.mono hg
  | _ => exact .quiet (Run.quiet_debug _ (.pure trivial)) fun _ _ => trivial

end Keeps

end LinkedStore

end ObjScript
