import ObjScript.Proofs.Eval.Quiet
import ObjScript.Proofs.Session.Compound

/-!
# Definitions that fail

A variable is bound once its initial value is there, so a declaration that fails leaves the name as it was.  A class
is not: its name is bound to null first, and the initial values of its properties are found after that.  If one of
them fails, null is what the name keeps, whatever it stood for before, and there is no new class
(`failed_definition_leaves_null`).

The initial values are calm: without an assignment or a call in them, evaluating them makes new frames and new arrays
and changes nothing else, so all that the definition does to the names of the program is its own binding.
-/

namespace ObjScript

mutual

/-- There is no assignment and no call in the expression, the bodies of its blocks aside, which do not run. -/
def Expr.calm : Expr → Bool
  | .literal _ | .variable _ | .selfRef _ | .superRef _ | .block _ _ _ => true
  | .grouping inner => inner.calm
  | .unary _ _ operand => operand.calm
  | .binary left _ _ right | .logical left _ right => left.calm && right.calm
  | .ternary condition yes no => condition.calm && yes.calm && no.calm
  | .array items => Expr.calmList items
  | .index object place => object.calm && place.calm
  | .get object _ => object.calm
  | .assign _ _ _ _ | .setIndex _ _ _ _ _ | .set _ _ _ _ _ | .call _ _ => false

/-- All expressions of the list are calm. -/
def Expr.calmList : List Expr → Bool
  | [] => true
  | e :: rest => e.calm && Expr.calmList rest

end

/-! ### Steps that only add to the store -/

namespace Store

variable {s t u : Store} {α β : Type}

private theorem Widened.trans (h : s.Widened t) (h' : t.Widened u) : s.Widened u where
  size := h.size.trans h'.size
  old := fun k hk => (h'.old k (Nat.lt_of_lt_of_le hk h.size)).trans (h.old k hk)
  classes := h'.classes.trans h.classes
  instances := h'.instances.trans h.instances

/-- What is added later changes nothing about a binding. -/
private theorem Rebound.widened {f : FrameId} {x : String} {w : Value} (h : s.Rebound t f x w)
    (hsize : s.frames.size ≤ t.frames.size) (hf : f.index < t.frames.size) (h' : t.Widened u) :
    s.Rebound u f x w where
  holds := (h'.own? hf x).trans h.holds
  others := fun k hk hlt => by rw [h'.old k (Nat.lt_of_lt_of_le hlt hsize), h.others k hk hlt]

private theorem classes_define (s : Store) (f : FrameId) (x : String) (v : Value) :
    (s.define f x v).classes = s.classes := by
  rcases s.define_cases f x v with h | ⟨i, -, -, -, h⟩ <;> rw [h] <;> rfl

private theorem Widened.arrays (s : Store) (arrays : Array (Array Value)) : s.Widened { s with arrays := arrays } :=
  ⟨Nat.le_refl _, fun _ _ => rfl, rfl, rfl⟩

/-- A copy of a chain is made of new frames. -/
private theorem widened_snapshot (stop : Option FrameId) (env : Env) (s : Store) :
    s.Widened ((snapshot stop env).run s).2 := by
  induction env with
  | nil => exact .refl s
  | cons f outer ih =>
    unfold snapshot
    split
    · exact .refl s
    · exact ih.trans (.push _ _)

end Store

namespace Run

variable {α β : Type}

/-- Whatever comes of the step, the store has got new frames and arrays at most. -/
def Widens (t : Run α) : Prop :=
  ∀ m : Machine, m.store.Widened (t.result m).2.store

namespace Widens

private theorem pure (a : α) : Widens (Pure.pure a : Run α) :=
  fun m => .refl m.store

private theorem throw (e : Stop) : Widens (throw e : Run α) :=
  fun m => .refl m.store

private theorem bind {t : Run α} {k : α → Run β} (ht : Widens t) (hk : ∀ a, Widens (k a)) : Widens (t >>= k) := by
  intro m
  have hfirst := ht m
  rw [result_bind]
  cases hr : t.result m with
  | mk r m' =>
    rw [hr] at hfirst
    cases r with
    | error e => exact hfirst
    | ok a => exact hfirst.trans (hk a m')

private theorem quiet {Q : α → Prop} {t : Run α} (h : Quiet Q t) : Widens t := by
  intro m
  obtain ⟨r, m', hr, hstore, -⟩ := h m
  rw [hr]
  exact hstore ▸ .refl m.store

/-- A step that looks at the machine. -/
private theorem look {k : Machine → Run β} (hk : ∀ m, Widens (k m)) : Widens (get >>= k) :=
  fun m => hk m m

private theorem onStore {t : WithStore α} (h : ∀ s : Store, s.Widened (t.run s).2) : Widens (onStore t) :=
  fun m => h m.store

end Widens

private theorem widens_read (env : Env) (ref : Ref) : Widens (read env ref) := by
  intro m
  obtain ⟨v, s, hr, hwide⟩ := result_read_widened env ref m
  rw [hr]
  exact hwide

private theorem widens_readName (env : Env) (name : String) : Widens (readName env name) :=
  widens_read env ⟨⟨name, ⟨1, 1⟩⟩, none⟩

private theorem widens_memberValue (member : Member) : Widens (onStore (Store.memberValue member)) := by
  cases member with
  | value v => exact .pure v
  | method f i superclass => exact .onStore fun s => .push s _

private theorem widens_staticMethod (found : Option FoundMethod) (c : ClassId) : Widens (staticMethod found c) := by
  unfold staticMethod
  split
  · exact .onStore fun s => .push s _
  · exact .pure _
  · exact .pure _

private theorem widens_ofSuper (found : Option FoundMethod) (c : ClassId) (name : String) (self : Value) :
    Widens (ofSuper found c name self) := by
  unfold ofSuper
  split
  · split
    · exact .onStore fun s => .push s _
    · exact .pure _
    · exact .pure _
  · exact widens_staticMethod _ _

/-- A member is read, and reading it may bind a method. -/
private theorem widens_member (env : Env) (viaSuper : Bool) (v : Value) (name : String) :
    Widens (member env viaSuper v name) := by
  unfold member
  split
  · unfold instanceMember
    refine .look fun m => ?_
    split
    · exact widens_memberValue _
    · exact .pure _
  · split
    · exact .look fun m => .bind (widens_readName env "self") fun self => widens_ofSuper _ _ name self
    · exact .look fun m => widens_staticMethod _ _
  · exact .pure _

private theorem widens_element (v place : Value) : Widens (element v place) := by
  unfold element
  split
  · exact .look fun m => .pure _
  · split
    · exact .pure _
    · exact .pure _
  · exact .pure _

/-! ### Calm expressions -/

/-- Evaluating a calm expression only adds to the store. -/
def WidensCalm (i : Interp) : Prop :=
  ∀ env (e : Expr), e.calm = true → Widens (i.eval env e)

section Parts

variable {i : Interp} (hi : WidensCalm i)

include hi

private theorem widens_evalAll (env : Env) {es : List Expr} (hes : Expr.calmList es = true) :
    Widens (evalAll i env es) := by
  induction es with
  | nil => exact .pure []
  | cons e es ih =>
    obtain ⟨he, hes⟩ := Bool.and_eq_true_iff.1 hes
    exact .bind (hi env e he) fun v => .bind (ih hes) fun vs => .pure _

private theorem widens_evalExpr (env : Env) {e : Expr} (he : e.calm = true) : Widens (evalExpr i env e) := by
  cases e with
  | literal value => exact .pure _
  | «variable» ref | selfRef ref | superRef ref => exact widens_read env ref
  | grouping inner => exact hi env inner he
  | unary op pos operand => exact .bind (hi env operand he) fun v => .quiet (quiet_unary op pos v)
  | binary left op pos right =>
    obtain ⟨hl, hr⟩ := Bool.and_eq_true_iff.1 he
    exact .bind (hi env left hl) fun v => .bind (hi env right hr) fun w => .quiet (quiet_binary op pos v w)
  | logical left op right =>
    obtain ⟨hl, hr⟩ := Bool.and_eq_true_iff.1 he
    refine .bind (hi env left hl) fun v => ?_
    dsimp only
    split
    · exact .pure _
    · exact .pure _
    · exact .bind (hi env right hr) fun w => .pure _
  | ternary condition yes no =>
    obtain ⟨hboth, hn⟩ := Bool.and_eq_true_iff.1 he
    obtain ⟨hc, hy⟩ := Bool.and_eq_true_iff.1 hboth
    refine .bind (hi env condition hc) fun v => ?_
    split
    · exact hi env yes hy
    · exact hi env no hn
  | array items =>
    refine .bind (widens_evalAll hi env he) fun values => .bind ?_ fun a => .pure _
    exact .onStore fun s => .arrays s _
  | index object place =>
    obtain ⟨ho, hp⟩ := Bool.and_eq_true_iff.1 he
    exact .bind (hi env object ho) fun v => .bind (hi env place hp) fun p => widens_element v p
  | get object name => exact .bind (hi env object he) fun v => widens_member env _ v name.text
  | block returns params body =>
    exact .bind (.onStore fun s => s.widened_snapshot (some .globals) env) fun copies => .pure _
  | assign | setIndex | set | call => cases he

private theorem widens_evalOption (env : Env) {init : Option Expr} (h : ∀ e ∈ init, e.calm = true) :
    Widens (evalOption i env init) := by
  cases init with
  | none => exact .pure _
  | some e => exact hi env e (h e rfl)

private theorem widens_evalProperties (env : Env) {properties : List VarDecl}
    (h : ∀ d ∈ properties, ∀ e ∈ d.init, e.calm = true) (b : Bindings Value) :
    Widens (evalProperties i env properties b) := by
  induction properties generalizing b with
  | nil => exact .pure b
  | cons d properties ih =>
    obtain ⟨hd, hproperties⟩ := List.forall_mem_cons.1 h
    obtain ⟨type, name, init⟩ := d
    cases init with
    | none => exact .bind (.pure (defaultValue type)) fun v => ih hproperties _
    | some e => exact .bind (hi env e (hd e rfl)) fun v => ih hproperties _

end Parts

private theorem widensCalm_interp (n : Nat) : WidensCalm (interp n) := by
  induction n with
  | zero => exact fun _ _ _ => .throw _
  | succ n ih => exact fun env e he => widens_evalExpr ih env he

/-- Finding the superclass reads a name. -/
private theorem widens_superclassOf (name : String) (v : Value) : Widens (superclassOf name v) := by
  unfold superclassOf
  split
  · exact .look fun m => .pure _
  · refine .bind (.quiet (quiet_debug _ ?_)) fun _ => .pure _
    exact .bind (quiet_text _) fun _ _ => .pure trivial

private theorem widens_lineageOf (env : Env) (name : String) (superclass : Option Ref) :
    Widens (lineageOf env name superclass) := by
  unfold lineageOf
  split
  · exact .bind (widens_read env _) fun v => widens_superclassOf name v
  · exact .pure []

/-- A class gets a binding whatever its name was bound to, so making it does not fail. -/
private theorem result_makeClass (env : Env) (name : String) (lineage : List ClassId) (properties : Bindings Value)
    (m : Machine) : ∃ m', (makeClass env name lineage properties).result m = (.ok (), m') :=
  ⟨_, rfl⟩

end Run

/-! ### Definitions -/

/-- What a definition with calm initial values leaves behind if it fails.  A variable: all bindings as they were.  A
class: all bindings as they were if the superclass is what failed; else the name is bound to null in the innermost
frame, no other frame that was there has other bindings than before, and there is no new class. -/
def LeavesNull (env : Env) : Node → Machine → Prop
  | .stmt (.var decl), m => (∀ e ∈ decl.init, e.calm = true) →
    ∀ n stop m', ((interp (n + 1)).exec env (.var decl)).result m = (.error stop, m') → m.store.Widened m'.store
  | .stmt (.classDef name superclass methods properties), m => (∀ d ∈ properties, ∀ e ∈ d.init, e.calm = true) →
    ∀ n stop m', ((interp (n + 1)).exec env (.classDef name superclass methods properties)).result m =
        (.error stop, m') →
      (Run.result (Run.lineageOf env name.text superclass) m = (.error stop, m') ∧ m.store.Widened m'.store) ∨
      ∃ f outer, env = f :: outer ∧ m.store.Rebound m'.store f name.text .null ∧ m'.store.classes = m.store.classes
  | _, _ => True

section Definitions

variable {env : Env} {m m' : Machine} {n : Nat} {stop : Stop}

private theorem widened_of_failed_var {decl : VarDecl} (hcalm : ∀ e ∈ decl.init, e.calm = true)
    (h : ((interp (n + 1)).exec env (.var decl)).result m = (.error stop, m')) : m.store.Widened m'.store := by
  obtain ⟨type, name, init⟩ := decl
  have hinit := Run.widens_evalOption (Run.widensCalm_interp n) env hcalm m
  change (Run.evalOption (interp n) env init >>= fun v => Run.define env name.text v >>= fun _ => pure none).result
    m =
    _ at h
  rw [Run.result_bind] at h
  cases hr : (Run.evalOption (interp n) env init).result m with
  | mk r m₁ =>
    rw [hr] at h hinit
    cases r with
    | error e =>
      cases h
      exact hinit
    | ok v => cases h

/-- The name is bound to null before the properties get their values, so that it is when one of them fails. -/
private theorem rebound_of_failed_defineClass {m₁ : Machine} {f : FrameId} {outer : Env} {name : String}
    {properties : List VarDecl} {lineage : List ClassId} (hwidened : m.store.Widened m₁.store)
    (hf : f.index < m.store.frames.size) (hcalm : ∀ d ∈ properties, ∀ e ∈ d.init, e.calm = true)
    (h : (Run.defineClass (interp n) (f :: outer) name properties lineage).result m₁ = (.error stop, m')) :
    m.store.Rebound m'.store f name .null ∧ m'.store.classes = m.store.classes := by
  have hrebound := hwidened.rebound (x := name) (w := .null) hf
  have hsize := hwidened.size.trans (Store.size_define m₁.store f name .null).ge
  have hclasses := (Store.classes_define m₁.store f name .null).trans hwidened.classes
  have hstart : (Run.defineClass (interp n) (f :: outer) name properties lineage).result m₁ = (do
      let initial ← Run.evalProperties (interp n) (f :: outer) properties []
      Run.makeClass (f :: outer) name lineage initial).result
        { m₁ with store := m₁.store.define f name .null } := rfl
  have hlater := Run.widens_evalProperties (Run.widensCalm_interp n) (f :: outer) hcalm []
    { m₁ with store := m₁.store.define f name .null }
  rw [hstart, Run.result_bind] at h
  cases hr : (Run.evalProperties (interp n) (f :: outer) properties []).result
      { m₁ with store := m₁.store.define f name .null } with
  | mk r m₂ =>
    rw [hr] at h hlater
    cases r with
    | error e =>
      cases h
      exact ⟨hrebound.widened hsize (Nat.lt_of_lt_of_le hf hsize) hlater, hlater.classes.trans hclasses⟩
    | ok initial =>
      obtain ⟨m₃, hmake⟩ := Run.result_makeClass (f :: outer) name lineage initial m₂
      dsimp only at h
      rw [hmake] at h
      cases h

private theorem rebound_of_failed_classDef (hm : m.store.Sound) (henv : m.store.IsChain env) {name : Name}
    {superclass : Option Ref} {methods : List FunctionDecl} {properties : List VarDecl}
    (hcalm : ∀ d ∈ properties, ∀ e ∈ d.init, e.calm = true)
    (h : ((interp (n + 1)).exec env (.classDef name superclass methods properties)).result m = (.error stop, m')) :
    (Run.result (Run.lineageOf env name.text superclass) m = (.error stop, m') ∧ m.store.Widened m'.store) ∨
      ∃ f outer, env = f :: outer ∧ m.store.Rebound m'.store f name.text .null ∧
        m'.store.classes = m.store.classes := by
  have hlineage := Run.widens_lineageOf env name.text superclass m
  change (Run.execStmt (interp n) env (.classDef name superclass methods properties)).result m = _ at h
  rw [Run.execStmt_classDef, Run.result_bind] at h
  cases hr : Run.result (Run.lineageOf env name.text superclass) m with
  | mk r m₁ =>
    rw [hr] at h hlineage
    cases r with
    | error e =>
      cases h
      exact .inl ⟨rfl, hlineage⟩
    | ok lineage =>
      right
      obtain ⟨f, outer, rfl⟩ : ∃ f outer, env = f :: outer := by
        obtain ⟨frames, rfl, -⟩ := henv
        exact List.exists_cons_of_ne_nil (List.append_ne_nil_of_right_ne_nil frames (List.cons_ne_nil _ _))
      have hf : f.index < m.store.frames.size := henv.lt_size hm.globals f List.mem_cons_self
      dsimp only at h
      rw [Run.result_bind] at h
      cases hr' : (Run.defineClass (interp n) (f :: outer) name.text properties lineage).result m₁ with
      | mk r m₂ =>
        rw [hr'] at h
        cases r with
        | error e =>
          cases h
          exact ⟨f, outer, rfl, rebound_of_failed_defineClass hlineage hf hcalm hr'⟩
        | ok _ => cases h

end Definitions

/-- Throughout every session, a class definition with calm initial values that fails once its superclass is found
leaves null behind under the name of the class, where a variable declaration that fails leaves what was there. -/
theorem failed_definition_leaves_null (input : List String) (clock : Nat → Float) (threshold : Nat)
    (sources : List String) :
    (Session.initial (Machine.initial input clock threshold)).Always sources LeavesNull := by
  refine Session.always_of_sound (fun {m env node} hm henv => ?_) input clock threshold sources
  unfold LeavesNull
  split
  · exact fun hcalm n stop m' h => widened_of_failed_var hcalm h
  · exact fun hcalm n stop m' h => rebound_of_failed_classDef hm henv hcalm h
  · trivial

/-- The class is lost when it is defined again with an initial value that fails; the variable is not. -/
example : ((Session.initial (Machine.initial [] (fun _ => 0) 30)).executeAll
    ["@interface Dog @end int legs = 4;", "@interface Dog @property int legs = -nil; @end", "int legs = -nil;",
      "print Dog == nil; print legs;"]).2.machine.printed = "\nERROR\nERRORYES\n4\n" := by decide +kernel

end ObjScript
