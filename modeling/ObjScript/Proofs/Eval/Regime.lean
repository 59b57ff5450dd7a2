import ObjScript.Proofs.Store.Later
import ObjScript.Proofs.Store.Values
import ObjScript.Proofs.Syntax.Places
import ObjScript.Eval.Variable

/-!
# Regimes

A regime says what all the code of a run has in common and what is therefore true of the store all along: what
is known about the places of the code, what the frame of a scope looks like, which functions are never called, and
what else is invariant.  The store is sound under a regime (`Regime.Inv`) if every function in it can be run:
its code belongs to the regime, and its frames were made for the scopes around the code.

A step of a run changes the store in one of a few ways (`Regime.Change`).  A regime whose laws are true of each
of them (`Regime.Lawful`) keeps its invariant.
-/

namespace ObjScript

/-- What is true of all code and all states of a run. -/
structure Regime where
  /-- Names that are bound when a frame is made and never again. -/
  kept : String → Prop
  /-- Names that code may bind. -/
  free : String → Prop
  /-- What is known about a place of the code. -/
  ok : Place → Prop
  /-- The frame is as one for the scope should be. -/
  follows : Store → FrameId → Option String → Prop
  /-- Functions and blocks that are not called. -/
  exempt : Store → Value → Prop
  /-- Methods that are not called. -/
  exemptMethod : Store → Closure → Prop
  /-- The class may have methods from an implementation of this name. -/
  implements : Store → ClassId → String → Prop
  /-- What else is true of the store. -/
  inv : Store → Prop
  /-- What else a later store has kept. -/
  stable : Store → Store → Prop

namespace Regime

section Definitions

variable (R : Regime)

/-- The chain has a frame for each of the scopes, and then come the built-in names. -/
inductive Follows (s : Store) : Env → Surroundings → Prop where
  | globals : Follows s [.globals] []
  | scope {f : FrameId} {l : Option String} {env : Env} {p : Surroundings} (hf : f ≠ .globals)
      (hlt : f.index < s.frames.size) (hl : R.follows s f l) (h : Follows s env p) : Follows s (f :: env) (l :: p)

/-- The body belongs to the regime, and the chain follows the scopes around it. -/
def Runnable (s : Store) (params : List Param) (body : List Stmt) (env : Env) : Prop :=
  ∃ p, R.Follows s env p ∧ (∀ x ∈ paramNames params, R.free x) ∧ ∀ a ∈ Stmt.placesList body (none :: p), R.ok a

/-- Functions and blocks can be run unless they are never called, and classes and instances have been made. -/
def Good (s : Store) : Value → Prop
  | .function f => R.exempt s (.function f) ∨ R.Runnable s f.decl.params f.decl.body f.env
  | .block b => R.exempt s (.block b) ∨ R.Runnable s b.params b.body b.env
  | .object i => i.index < s.instances.size
  | .classRef c => c.index < s.classes.size
  | .native (.alloc c) => c.index < s.classes.size
  | .native (.init i) => i.index < s.instances.size
  | _ => True

/-- A method of the class can be run once it is bound. -/
def GoodMethod (s : Store) (c : ClassId) : Method → Prop
  | .closure f => ∃ name, R.implements s c name ∧
      (R.exemptMethod s f ∨ ∃ p, R.Follows s f.env p ∧ (∀ x ∈ paramNames f.decl.params, R.free x) ∧
        ∀ a ∈ Stmt.placesList f.decl.body (none :: some name :: p), R.ok a)
  | .alloc => True

/-- The invariant of a run. -/
structure Inv (s : Store) : Prop where
  values : s.Holds (R.Good s) fun _ => True
  methods : ∀ c, ∀ q ∈ (s.classOf c).methods, R.GoodMethod s c q.2
  globals : 0 < s.frames.size
  receivers : ∀ f i, (s.frame f).receiver = some i → i.index < s.instances.size
  classes : ∀ i : InstanceId, i.index < s.instances.size → (s.object i).cls.index < s.classes.size
  lineages : s.Lineages
  extra : R.inv s

/-- The store comes later in the run. -/
structure After (s t : Store) : Prop where
  later : s.Later R.kept t
  stable : R.stable s t

/-- A method of a class comes to be bound to an instance: it was found on the instance, or through `super`. -/
inductive Binds (s : Store) (i : InstanceId) (c : ClassId) (above : List ClassId) : Prop where
  | ofInstance (below : List ClassId) (h : s.line (s.object i).cls = below ++ c :: above)
  | ofSuper (env : Env) (p : Surroundings) (ref : Ref) (k : ClassId) (below : List ClassId)
      (henv : R.Follows s env p) (hok : R.ok ⟨.expr (.superRef ref), p⟩)
      (hsuper : s.lookup? (Run.refEnv env ref) ref.name.text = some (.value (.classRef k)))
      (hself : s.lookup? env "self" = some (.value (.object i))) (h : s.line k = below ++ c :: above)

/-- The frames that a run makes, and the scopes it makes them for. -/
inductive Makes (s : Store) : Frame → Option String → Prop where
  | plain {b : Bindings Value} (hb : ∀ x, b.has x = true → R.free x) : Makes s ⟨b, none⟩ none
  | copy {f : FrameId} {l : Option String} (hf : f ≠ .globals) (hlt : f.index < s.frames.size)
      (hl : R.follows s f l) : Makes s (s.frame f) l
  | bound {i : InstanceId} {c : ClassId} {above : List ClassId} {name : String} (hi : i.index < s.instances.size)
      (hname : R.implements s c name) (h : R.Binds s i c above) : Makes s (Store.boundFrame i above.head?) (some name)
  | static {k c : ClassId} {name : String} (hk : k.index < s.classes.size) (hname : R.implements s c name) :
      Makes s ⟨[("self", .classRef k)], none⟩ (some name)

/-- The changes of the store that a run makes. -/
inductive Change (s : Store) : Store → Prop where
  | frame {new : Frame} {l : Option String} (h : R.Makes s new l) : Change s { s with frames := s.frames.push new }
  | arrays (arrays : Array (Array Value)) : Change s { s with arrays := arrays }
  | allocate {c : ClassId} (hc : c.index < s.classes.size) :
      Change s { s with instances := s.instances.push ⟨c, s.initialProperties (s.line c)⟩ }
  | define {f : FrameId} {x : String} {v : Value}
      (hf : f ≠ .globals → f.index < s.frames.size ∧ ∃ l, R.follows s f l) (hx : R.free x) : Change s (s.define f x v)
  | property (i : InstanceId) (x : String) (v : Value) : Change s (s.putProperty i x v)
  | newClass {p : Surroundings} {name : Name} {superclass : Option Ref} {methods : List FunctionDecl}
      {properties : List VarDecl} {new : Class} (hok : R.ok
        ⟨.stmt (.classDef name superclass methods properties), p⟩) :
      Change s { s with classes := s.classes.push new }
  | implement {p : Surroundings} {name : Name} {methods : List FunctionDecl} {c : ClassId} {table : Bindings Method}
      (hok : R.ok ⟨.stmt (.classImpl name methods), p⟩) : Change s (s.putMethods c table)

/-- The laws of a regime. -/
class Lawful : Prop where
  not_kept : ∀ {x}, R.free x → ¬ R.kept x
  binds : ∀ {a}, R.ok a → ∀ x ∈ a.node.binds, R.free x
  implements_of_ok : ∀ {p name methods}, R.ok ⟨.stmt (.classImpl name methods), p⟩ → ∀ s c, R.implements s c name.text
  stable_refl : ∀ s, R.stable s s
  stable_trans : ∀ {s t u}, R.stable s t → R.stable t u → R.stable s u
  follows_mono : ∀ {s t f l}, R.Inv s → s.Later R.kept t → f.index < s.frames.size → R.follows s f l → R.follows t f l
  implements_mono : ∀ {s t c name}, s.Later R.kept t → c.index < s.classes.size → R.implements s c name →
    R.implements t c name
  exempt_mono : ∀ {s t v}, s.Later R.kept t → R.exempt s v → R.exempt t v
  exemptMethod_mono : ∀ {s t f}, s.Later R.kept t → R.exemptMethod s f → R.exemptMethod t f
  exempt_bound : ∀ {s f} {frame : FrameId}, frame ≠ .globals → frame.index < s.frames.size → R.exemptMethod s f →
    R.exempt s (.function { f with env := frame :: f.env })
  makes : ∀ {s new l}, R.Inv s → R.Makes s new l →
    R.follows { s with frames := s.frames.push new } ⟨s.frames.size⟩ l
  change : ∀ {s t}, R.Inv s → R.Change s t → R.inv t ∧ R.stable s t

end Definitions

variable {R : Regime} {s t u : Store}

theorem After.refl [hR : R.Lawful] (s : Store) : R.After s s :=
  ⟨.refl s, hR.stable_refl s⟩

theorem After.trans [hR : R.Lawful] (h : R.After s t) (h' : R.After t u) : R.After s u :=
  ⟨h.later.trans h'.later, hR.stable_trans h.stable h'.stable⟩

/-- No change takes anything away, or binds a name that code may not bind. -/
theorem Change.later {K : String → Prop} (hfree : ∀ {x}, R.free x → ¬ K x) (h : R.Change s t) : s.Later K t := by
  cases h with
  | frame => exact .pushFrame s _
  | arrays arrays => exact .arrays s arrays
  | allocate => exact .pushInstance s _
  | define _ hx => exact .define s _ _ (hfree hx)
  | property i x v => exact .putProperty s i x v
  | newClass => exact .pushClass s _
  | implement => exact .putMethods s _ _

theorem Change.after [hR : R.Lawful] (hs : R.Inv s) (h : R.Change s t) : R.After s t :=
  ⟨h.later hR.not_kept, (hR.change hs h).2⟩

/-- A class that has methods was made. -/
theorem lt_size_of_methods {c : ClassId} {q : String × Method} (h : q ∈ (s.classOf c).methods) :
    c.index < s.classes.size := by
  by_contra hc
  rw [Store.classOf, Array.getD_eq_getD_getElem?, Array.getElem?_eq_none (Nat.le_of_not_lt hc)] at h
  cases h

section Mono

variable [hR : R.Lawful] (hs : R.Inv s) (h : s.Later R.kept t)

include hs h

theorem Follows.later {env : Env} {p : Surroundings} (henv : R.Follows s env p) : R.Follows t env p := by
  induction henv with
  | globals => exact .globals
  | scope hf hlt hl _ ih =>
    exact .scope hf (Nat.lt_of_lt_of_le hlt h.frames) (hR.follows_mono hs h hlt hl) ih

private theorem Runnable.later {params : List Param} {body : List Stmt} {env : Env}
    (hrun : R.Runnable s params body env) :
    R.Runnable t params body env := by
  obtain ⟨p, henv, hparams, hok⟩ := hrun
  exact ⟨p, henv.later hs h, hparams, hok⟩

private theorem Good.later {v : Value} (hv : R.Good s v) : R.Good t v := by
  match v, hv with
  | .function _, hv | .block _, hv => exact hv.imp (hR.exempt_mono h) (·.later hs h)
  | .object _, hv | .native (.init _), hv => exact Nat.lt_of_lt_of_le hv h.instances
  | .classRef _, hv | .native (.alloc _), hv => exact Nat.lt_of_lt_of_le hv h.classes
  | .null, _ | .number _, _ | .string _, _ | .bool _, _ | .array _, _ | .builtin _, _ => trivial
  | .native .clock, _ | .native .array, _ | .native .readLine, _ | .native .printLine, _ | .native .int, _ => trivial

private theorem GoodMethod.later {c : ClassId} {m : Method} (hc : c.index < s.classes.size)
    (hm : R.GoodMethod s c m) :
    R.GoodMethod t c m := by
  match m, hm with
  | .alloc, _ => trivial
  | .closure _, ⟨name, hname, .inl hexempt⟩ =>
    exact ⟨name, hR.implements_mono h hc hname, .inl (hR.exemptMethod_mono h hexempt)⟩
  | .closure _, ⟨name, hname, .inr ⟨p, henv, hparams, hok⟩⟩ =>
    exact ⟨name, hR.implements_mono h hc hname, .inr ⟨p, henv.later hs h, hparams, hok⟩⟩

end Mono

section After

variable [hR : R.Lawful] (hs : R.Inv s) (h : R.After s t)

include hs h

theorem Follows.mono {env : Env} {p : Surroundings} (henv : R.Follows s env p) : R.Follows t env p :=
  henv.later hs h.later

theorem Good.mono {v : Value} (hv : R.Good s v) : R.Good t v :=
  hv.later hs h.later

theorem GoodMethod.mono {c : ClassId} {m : Method} (hc : c.index < s.classes.size) (hm : R.GoodMethod s c m) :
    R.GoodMethod t c m :=
  hm.later hs h.later hc

end After

section Steps

variable [hR : R.Lawful] (hs : R.Inv s)

include hs

/-- The invariant of a later store whose classes have no other methods. -/
private theorem Inv.next (h : s.Later R.kept t) (hvalues : t.Holds (R.Good s) fun _ => True)
    (hmethods : ∀ c, (t.classOf c).methods = (s.classOf c).methods)
    (hreceivers : ∀ f i, (t.frame f).receiver = some i → i.index < t.instances.size)
    (hclasses : ∀ i : InstanceId, i.index < t.instances.size → (t.object i).cls.index < t.classes.size)
    (hlineages : t.Lineages) (hextra : R.inv t) : R.Inv t where
  values := hvalues.mono (fun _ hv => hv.later hs h) fun _ _ => trivial
  methods := by
    intro c q hq
    rw [hmethods] at hq
    exact (hs.methods c q hq).later hs h (lt_size_of_methods hq)
  globals := Nat.lt_of_lt_of_le hs.globals h.frames
  receivers := hreceivers
  classes := hclasses
  lineages := hlineages
  extra := hextra

theorem Inv.pushFrame {new : Frame} (hextra : R.inv { s with frames := s.frames.push new })
    (hb : new.bindings.All (R.Good s)) (hr : ∀ i, new.receiver = some i → i.index < s.instances.size) :
    R.Inv { s with frames := s.frames.push new } := by
  refine hs.next (.pushFrame s new) (hs.values.pushFrame hb) (fun _ => rfl) (fun f i hf => ?_)
    hs.classes hs.lineages hextra
  rw [Store.frame_push] at hf
  split at hf
  · exact hr i hf
  · exact hs.receivers f i hf

theorem Inv.arrays {arrays : Array (Array Value)} (hextra : R.inv { s with arrays := arrays })
    (ha : ∀ a ∈ arrays, ∀ v ∈ a, R.Good s v) : R.Inv { s with arrays := arrays } := by
  have hvalues : Store.Holds (R.Good s) (fun _ => True) { s with arrays := arrays } := { hs.values with arrays := ha }
  exact hs.next (.arrays s arrays) hvalues (fun _ => rfl) hs.receivers hs.classes hs.lineages hextra

theorem Inv.pushInstance {new : Instance} (hextra : R.inv { s with instances := s.instances.push new })
    (hb : new.properties.All (R.Good s)) (hc : new.cls.index < s.classes.size) :
    R.Inv { s with instances := s.instances.push new } := by
  have hlater : s.Later R.kept { s with instances := s.instances.push new } := .pushInstance s new
  refine hs.next hlater (hs.values.pushInstance hb) (fun _ => rfl) (fun f i hf => ?_) (fun i hi => ?_)
    hs.lineages hextra
  · exact Nat.lt_of_lt_of_le (hs.receivers f i hf) hlater.instances
  · rw [Store.object_push]
    split
    · exact hc
    · next hne =>
      rw [Array.size_push] at hi
      exact hs.classes i (by omega)

theorem Inv.putProperty {i : InstanceId} {x : String} {v : Value} (hextra : R.inv (s.putProperty i x v))
    (hv : R.Good s v) : R.Inv (s.putProperty i x v) := by
  have hlater : s.Later R.kept (s.putProperty i x v) := .putProperty s i x v
  have hsize : (s.putProperty i x v).instances.size = s.instances.size := Array.size_modify
  refine hs.next hlater (hs.values.putProperty hv i x) (fun _ => rfl) (fun f k hf => ?_) (fun k hk => ?_)
    hs.lineages hextra
  · rw [hsize]
    exact hs.receivers f k hf
  · rw [hsize] at hk
    rw [hlater.cls k hk]
    exact hs.classes k hk

theorem Inv.putBinding {f : FrameId} {x : String} {v : Value} (hextra : R.inv (s.putBinding f x v))
    (hx : ¬ R.kept x) (hv : R.Good s v) : R.Inv (s.putBinding f x v) := by
  refine hs.next (.putBinding s f v hx) (hs.values.putBinding hv f x) (fun _ => rfl) (fun k i hk => ?_) hs.classes
    hs.lineages hextra
  refine hs.receivers k i ?_
  rw [Store.frame_putBinding] at hk
  split at hk
  · next hkf =>
    rw [hkf.1]
    exact hk
  · exact hk

theorem Inv.define {f : FrameId} {x : String} {v : Value} (hextra : R.inv (s.define f x v)) (hx : ¬ R.kept x)
    (hv : R.Good s v) : R.Inv (s.define f x v) := by
  rcases s.define_cases f x v with h | ⟨i, -, -, -, h⟩
  · rw [h] at hextra ⊢
    exact hs.putBinding hextra hx hv
  · rw [h] at hextra ⊢
    exact hs.putProperty hextra hv

theorem Inv.pushClass {new : Class} (hextra : R.inv { s with classes := s.classes.push new })
    (hb : new.properties.All (R.Good s)) (hm : new.methods = [("alloc", .alloc)])
    (hl : new.lineage = [] ∨ ∃ p : ClassId, p.index < s.classes.size ∧ new.lineage = s.line p) :
    R.Inv { s with classes := s.classes.push new } := by
  have hlater : s.Later R.kept { s with classes := s.classes.push new } := .pushClass s new
  exact {
    values := (hs.values.pushClass hb fun _ _ => trivial).mono (fun _ hv => hv.later hs hlater) fun _ _ => trivial
    methods := by
      intro c q hq
      rw [Store.classOf_push] at hq
      split at hq
      · rw [hm] at hq
        rw [List.mem_singleton.1 hq]
        trivial
      · exact (hs.methods c q hq).later hs hlater (lt_size_of_methods hq)
    globals := hs.globals
    receivers := hs.receivers
    classes := fun i hi => Nat.lt_of_lt_of_le (hs.classes i hi) hlater.classes
    lineages := hs.lineages.pushClass hl
    extra := hextra }

theorem Inv.putMethods {c : ClassId} {table : Bindings Method} (hextra : R.inv (s.putMethods c table))
    (hm : ∀ q ∈ table, c.index < s.classes.size → R.GoodMethod s c q.2) : R.Inv (s.putMethods c table) := by
  have hlater : s.Later R.kept (s.putMethods c table) := .putMethods s c table
  have hvalues : (s.putMethods c table).Holds (R.Good s) fun _ => True := hs.values.putMethods c fun _ _ => trivial
  exact {
    values := hvalues.mono (fun _ hv => hv.later hs hlater) fun _ _ => trivial
    methods := by
      intro k q hq
      rw [Store.classOf_putMethods] at hq
      split at hq
      · next hk =>
        rw [hk.1]
        have hgood : Bindings.All (R.GoodMethod s c) ((s.classOf c).methods.putAll table) :=
          Bindings.All.putAll (hs.methods c) fun q hq => hm q hq hk.2
        exact (hgood q hq).later hs hlater hk.2
      · exact (hs.methods k q hq).later hs hlater (lt_size_of_methods hq)
    globals := hs.globals
    receivers := hs.receivers
    classes := by
      intro i hi
      exact Nat.lt_of_lt_of_le (hs.classes i hi) hlater.classes
    lineages := by
      refine hs.lineages.ofClasses fun k => ?_
      rw [Store.classOf_putMethods]
      split
      · next hk => rw [hk.1]
      · rfl
    extra := hextra }

end Steps

/-- Before a program there are natives and one class only. -/
theorem inv_initial (h : R.inv Store.initial) : R.Inv Store.initial where
  values := by
    refine Store.holds_initial (fun n hn => ?_) Nat.zero_lt_one trivial
    match n, hn with
    | .clock, _ | .array, _ | .readLine, _ | .printLine, _ | .int, _ => trivial
  methods := by
    intro c q hq
    have hc : c.index < 1 := lt_size_of_methods hq
    obtain ⟨i⟩ := c
    obtain rfl : i = 0 := Nat.lt_one_iff.1 hc
    rw [List.mem_singleton.1 hq]
    trivial
  globals := Nat.zero_lt_two
  receivers := by
    intro f i hi
    obtain ⟨n⟩ := f
    match n, hi with
    | 0, hi | 1, hi | n + 2, hi => cases hi
  classes := nofun
  lineages := by
    intro c a above hl
    obtain ⟨n⟩ := c
    match n, hl with
    | 0, hl | n + 1, hl => cases hl
  extra := h

end Regime

end ObjScript
