import Mathlib.Data.List.Pairwise
import ObjScript.Proofs.Bindings
import ObjScript.Proofs.Scope.Lineage
import ObjScript.Proofs.Scope.Reports
import ObjScript.Proofs.Scope.Sites

/-!
# The members that the analysis knows

In an orderly program all classes are declared and implemented at the top level, each of them once, after its
superclass and before its implementation (`Orderly`).  Only the statements about classes change what the analysis
knows of the classes (`Stmt.keepsClasses`), and each of them changes it for one class.  So when the analysis comes to
an implementation, it knows all properties of the class, inherited ones included (`Lists.members`).  The resolved
nodes of the program therefore stand in scopes in which the names of properties are declared (`Orderly.sited`).
-/

namespace ObjScript

/-! ### Orderly programs -/

/-- The class that the statement declares. -/
def Stmt.interface? : Stmt → Option String
  | .classDef name _ _ _ => some name.text
  | _ => none

/-- The node declares a class. -/
def Node.isInterface : Node → Bool
  | .stmt t => t.interface?.isSome
  | .expr _ => false

/-- The classes that statements of the list declare. -/
def declaredClasses (stmts : List Stmt) : List String :=
  stmts.filterMap Stmt.interface?

/-- The name of the class above all others. -/
def rootClass : String := "NSObject"

/-- After the classes in `known` a class may be declared if its superclass is one of them, and implemented if it is
one itself. -/
def Stmt.Timely (known : List String) : Stmt → Prop
  | .classDef _ (some ref) _ _ => ref.name.text ∈ rootClass :: known
  | .classDef _ none _ _ => False
  | .classImpl name _ => name.text ∈ known
  | _ => True

/-- Each class comes after its superclass and before its implementation. -/
def InOrder : List String → List Stmt → Prop
  | _, [] => True
  | known, t :: rest => t.Timely known ∧ InOrder (known ++ t.interface?.toList) rest

/-- A program with its classes in order. -/
structure Orderly (stmts : List Stmt) : Prop where
  /-- Classes are declared and implemented at the top level only. -/
  top : ∀ t ∈ stmts, ∀ n ∈ t.nodes.tail, n.isClass = false
  /-- Each class is declared once. -/
  once : (rootClass :: declaredClasses stmts).Nodup
  order : InOrder [] stmts
  /-- The names of classes are not declared or assigned otherwise. -/
  names : ∀ n ∈ Stmt.nodesList stmts, n.isInterface = false → ∀ x ∈ n.binds, x ∉ rootClass :: declaredClasses stmts

instance (known : List String) (t : Stmt) : Decidable (t.Timely known) :=
  match t with
  | .classDef _ (some ref) _ _ => inferInstanceAs (Decidable (ref.name.text ∈ rootClass :: known))
  | .classDef _ none _ _ => inferInstanceAs (Decidable False)
  | .classImpl name _ => inferInstanceAs (Decidable (name.text ∈ known))
  | .block _ | .branch _ _ _ | .loop _ _ | .count _ _ _ _ | .result _ | .expr _ | .var _ | .function _ | .print _
  | .typeDef _ _ => inferInstanceAs (Decidable True)

instance InOrder.decidable : (known : List String) → (stmts : List Stmt) → Decidable (InOrder known stmts)
  | _, [] => inferInstanceAs (Decidable True)
  | known, t :: rest =>
    have := InOrder.decidable (known ++ t.interface?.toList) rest
    inferInstanceAs (Decidable (t.Timely known ∧ InOrder (known ++ t.interface?.toList) rest))

instance (stmts : List Stmt) : Decidable (Orderly stmts) :=
  decidable_of_iff ((∀ t ∈ stmts, ∀ n ∈ t.nodes.tail, n.isClass = false) ∧
    (rootClass :: declaredClasses stmts).Nodup ∧
      InOrder [] stmts ∧ ∀ n ∈ Stmt.nodesList stmts, n.isInterface = false → ∀ x ∈ n.binds,
        x ∉ rootClass :: declaredClasses stmts)
    ⟨fun ⟨top, once, order, names⟩ => ⟨top, once, order, names⟩, fun ⟨top, once, order, names⟩ =>
      ⟨top, once, order, names⟩⟩

/-- The class has a property of the name: its interface declares it, or a class above it has it. -/
inductive HasProperty (stmts : List Stmt) : String → String → Prop where
  | own {name : Name} {superclass : Option Ref} {methods : List FunctionDecl} {properties : List VarDecl} {x : String}
      (h : .classDef name superclass methods properties ∈ stmts) (hx : x ∈ properties.map (·.name.text)) :
      HasProperty stmts name.text x
  | inherited {name : Name} {ref : Ref} {methods : List FunctionDecl} {properties : List VarDecl} {x : String}
      (h : .classDef name (some ref) methods properties ∈ stmts) (hx : HasProperty stmts ref.name.text x) :
      HasProperty stmts name.text x

section Interfaces

variable {stmts : List Stmt} {cls x : String}

/-- Only one statement declares a class. -/
private theorem interface_unique (h : (declaredClasses stmts).Nodup) {t t' : Stmt} (ht : t ∈ stmts) (ht' : t' ∈ stmts)
    (hcls : t.interface? = some cls) (hcls' : t'.interface? = some cls) : t = t' := by
  have hsymm : Std.Symm fun u v : Stmt => ∀ a, u.interface? = some a → ∀ b, v.interface? = some b → a ≠ b :=
    ⟨fun _ _ huv a ha b hb => (huv b hb a ha).symm⟩
  by_contra hne
  exact (List.pairwise_filterMap.1 h).forall ht ht' hne cls hcls cls hcls' rfl

/-- The properties of a declared class are its own ones and those of its superclass. -/
theorem HasProperty.cases_of_mem (h : (declaredClasses stmts).Nodup) {name : Name} {ref : Ref}
    {methods : List FunctionDecl} {properties : List VarDecl}
    (hmem : .classDef name (some ref) methods properties ∈ stmts) (hx : HasProperty stmts name.text x) :
    x ∈ properties.map (·.name.text) ∨ HasProperty stmts ref.name.text x := by
  generalize hcls : name.text = cls at hx
  cases hx with
  | own hmem' hx =>
    have heq := interface_unique h hmem hmem' (congrArg some hcls) rfl
    cases heq
    exact .inl hx
  | inherited hmem' hx =>
    have heq := interface_unique h hmem hmem' (congrArg some hcls) rfl
    cases heq
    exact .inr hx

/-- A class with properties is declared. -/
theorem HasProperty.mem_declared (h : HasProperty stmts cls x) : cls ∈ declaredClasses stmts := by
  cases h with
  | own h _ => exact List.mem_filterMap.2 ⟨_, h, rfl⟩
  | inherited h _ => exact List.mem_filterMap.2 ⟨_, h, rfl⟩

end Interfaces

/-! ### Tables of classes -/

namespace ClassTable

variable {t t' t'' : ClassTable} {cls name : String}

theorem get?_update_self (t : ClassTable) (name : String) (f : ClassInfo → ClassInfo) :
    Bindings.get? (t.update name f) name = some (f ((Bindings.get? t name).getD .empty)) :=
  Bindings.get?_put_self ..

theorem get?_update_of_ne (h : cls ≠ name) (f : ClassInfo → ClassInfo) :
    Bindings.get? (t.update name f) cls = Bindings.get? t cls :=
  Bindings.get?_put_of_ne t h _

/-- Two changes of what is known about one class. -/
private theorem update_update (t : ClassTable) (name : String) (f g : ClassInfo → ClassInfo) :
    (t.update name f).update name g = t.update name fun info => g (f info) := by
  unfold update
  rw [Bindings.get?_put_self, Option.getD_some, Bindings.put_put]

/-- The second table knows the classes of the first one, with the same superclasses and with at least their
members. -/
def Extends (t t' : ClassTable) : Prop :=
  ∀ cls info, Bindings.get? t cls = some info → ∃ info', Bindings.get? t' cls = some info' ∧
    info'.superclass = info.superclass ∧ info.properties ⊆ info'.properties ∧ info.methods ⊆ info'.methods

private theorem Extends.update {f : ClassInfo → ClassInfo} (hf : ∀ info, Bindings.get? t name = some info →
      (f info).superclass = info.superclass ∧ info.properties ⊆ (f info).properties ∧
        info.methods ⊆ (f info).methods) : Extends t (t.update name f) := by
  intro cls info hinfo
  by_cases hcls : cls = name
  · subst hcls
    refine ⟨f info, ?_, hf info hinfo⟩
    rw [get?_update_self, hinfo, Option.getD_some]
  · exact ⟨info, (get?_update_of_ne hcls f).trans hinfo, rfl, List.Subset.refl _, List.Subset.refl _⟩

/-- A larger table knows more members. -/
private theorem Extends.members (h : Extends t t') (cls : String) : t.members cls ⊆ t'.members cls := by
  have habove : ∀ a b, t.Above a b → t'.Above a b := by
    rintro a b ⟨info, hinfo, hsuper⟩
    obtain ⟨info', hinfo', hsuper', -⟩ := h a info hinfo
    exact ⟨info', hinfo', hsuper'.trans hsuper⟩
  intro x hx
  obtain ⟨c, hreach, hown⟩ := mem_members_iff.1 hx
  obtain ⟨info, hinfo, hmem⟩ := mem_own.1 hown
  obtain ⟨info', hinfo', -, hproperties, hmethods⟩ := h c info hinfo
  refine mem_members_iff.2 ⟨c, Relation.ReflTransGen.mono habove _ _ hreach, mem_own.2 ⟨info', hinfo', ?_⟩⟩
  exact hmem.imp (fun h => hproperties h) fun h => hmethods h

end ClassTable

/-! ### What the analysis learns about classes -/

namespace Resolve

variable {α β : Type}

/-- The step learns nothing about classes. -/
def KeepsClasses (step : Resolve α) : Prop :=
  ∀ s, (step.next s).classes = s.classes

namespace KeepsClasses

theorem pure (a : α) : KeepsClasses (pure a) :=
  fun _ => rfl

theorem bind {step : Resolve α} {k : α → Resolve β} (hstep : KeepsClasses step) (hk : ∀ a, KeepsClasses (k a)) :
    KeepsClasses (step >>= k) :=
  fun s => (hk (step.value s) (step.next s)).trans (hstep s)

theorem declare (name : String) : KeepsClasses (declare name) := by
  intro s
  obtain ⟨stack, classes, reports⟩ := s
  cases stack <;> rfl

private theorem inScope {step : Resolve α} (hstep : KeepsClasses step) : KeepsClasses (inScope step) := by
  have hopen : KeepsClasses (MonadState.modifyGet fun s : Scopes => ((), { s with stack := [] :: s.stack })) :=
    fun _ => rfl
  have hclose : KeepsClasses (MonadState.modifyGet fun s : Scopes => ((), { s with stack := s.stack.tail })) :=
    fun _ => rfl
  exact hopen.bind fun _ => hstep.bind fun a => hclose.bind fun _ => pure a

theorem reference (kind : RefKind) (ref : Ref) : KeepsClasses (reference kind ref) := by
  intro s
  unfold next
  rw [run_reference]
  cases depth? s.stack ref.name.text <;> rfl

end KeepsClasses

end Resolve

open Resolve

theorem keepsClasses_declareParams (params : List Param) : KeepsClasses (declareParams params) := by
  induction params with
  | nil => exact .pure ()
  | cons p rest ih => exact (KeepsClasses.declare _).bind fun _ => ih

theorem keepsClasses_declareAll (names : List String) : KeepsClasses (declareAll names) := by
  induction names with
  | nil => exact .pure ()
  | cons name rest ih => exact (KeepsClasses.declare name).bind fun _ => ih

/-- No class is declared or implemented at the nodes. -/
def ClassFree (nodes : List Node) : Prop :=
  ∀ n ∈ nodes, n.isClass = false

private theorem classFree_append {nodes more : List Node} :
    ClassFree (nodes ++ more) ↔ ClassFree nodes ∧ ClassFree more :=
  List.forall_mem_append

mutual

theorem Expr.keepsClasses (e : Expr) (h : ClassFree e.nodes) : KeepsClasses e.resolve := by
  obtain ⟨-, h⟩ := List.forall_mem_cons.1 (by unfold ClassFree Expr.nodes at h; exact h)
  match e, h with
  | .literal _, _ => exact .pure _
  | .variable ref, _ | .selfRef ref, _ | .superRef ref, _ =>
    exact (KeepsClasses.reference _ ref).bind fun _ => .pure _
  | .grouping inner, h => exact (inner.keepsClasses h).bind fun _ => .pure _
  | .unary _ _ operand, h => exact (operand.keepsClasses h).bind fun _ => .pure _
  | .binary left _ _ right, h | .logical left _ right, h =>
    obtain ⟨hl, hr⟩ := classFree_append.1 h
    exact (left.keepsClasses hl).bind fun _ => (right.keepsClasses hr).bind fun _ => .pure _
  | .ternary condition yes no, h =>
    obtain ⟨h, hno⟩ := classFree_append.1 h
    obtain ⟨hc, hyes⟩ := classFree_append.1 h
    exact (condition.keepsClasses hc).bind fun _ => (yes.keepsClasses hyes).bind fun _ =>
      (no.keepsClasses hno).bind fun _ => .pure _
  | .assign target _ _ value, h =>
    exact (value.keepsClasses h).bind fun _ => (KeepsClasses.reference _ target).bind fun _ => .pure _
  | .array items, h => exact (Expr.keepsClassesList items h).bind fun _ => .pure _
  | .index object place, h =>
    obtain ⟨ho, hp⟩ := classFree_append.1 h
    exact (object.keepsClasses ho).bind fun _ => (place.keepsClasses hp).bind fun _ => .pure _
  | .setIndex object place _ _ value, h =>
    obtain ⟨h, hv⟩ := classFree_append.1 h
    obtain ⟨ho, hp⟩ := classFree_append.1 h
    exact (value.keepsClasses hv).bind fun _ => (object.keepsClasses ho).bind fun _ =>
      (place.keepsClasses hp).bind fun _ => .pure _
  | .get object _, h => exact (object.keepsClasses h).bind fun _ => .pure _
  | .set object _ _ _ value, h =>
    obtain ⟨ho, hv⟩ := classFree_append.1 h
    exact (value.keepsClasses hv).bind fun _ => (object.keepsClasses ho).bind fun _ => .pure _
  | .call callee args, h =>
    obtain ⟨hc, ha⟩ := classFree_append.1 h
    exact (callee.keepsClasses hc).bind fun _ => (Expr.keepsClassesList args ha).bind fun _ => .pure _
  | .block _ params body, h =>
    have hbody := (keepsClasses_declareParams params).bind fun _ => Stmt.keepsClassesList body h
    exact hbody.inScope.bind fun _ => .pure _

theorem Expr.keepsClassesList (l : List Expr) (h : ClassFree (Expr.nodesList l)) :
    KeepsClasses (Expr.resolveList l) := by
  match l with
  | [] => exact .pure _
  | e :: rest =>
    obtain ⟨he, hr⟩ := classFree_append.1 h
    exact (e.keepsClasses he).bind fun _ => (Expr.keepsClassesList rest hr).bind fun _ => .pure _

private theorem Expr.keepsClassesOption (o : Option Expr) (h : ClassFree (Expr.nodesOption o)) :
    KeepsClasses (Expr.resolveOption o) := by
  match o with
  | none => exact .pure _
  | some e => exact (e.keepsClasses h).bind fun _ => .pure _

private theorem FunctionDecl.keepsClassesList (l : List FunctionDecl) (h : ClassFree (FunctionDecl.nodesList l)) :
    KeepsClasses (FunctionDecl.resolveList l) := by
  match l with
  | [] => exact .pure _
  | ⟨name, params, body, isStatic⟩ :: rest =>
    obtain ⟨hb, hr⟩ := classFree_append.1 h
    have hbody := (keepsClasses_declareParams params).bind fun _ => Stmt.keepsClassesList body hb
    have hfirst : KeepsClasses (FunctionDecl.resolve ⟨name, params, body, isStatic⟩) :=
      hbody.inScope.bind fun _ => .pure _
    exact hfirst.bind fun _ => (FunctionDecl.keepsClassesList rest hr).bind fun _ => .pure _

private theorem Stmt.keepsClasses (t : Stmt) (h : ClassFree t.nodes) : KeepsClasses t.resolve := by
  obtain ⟨ht, h⟩ := List.forall_mem_cons.1 (by unfold ClassFree Stmt.nodes at h; exact h)
  match t, ht, h with
  | .block body, _, h => exact (Stmt.keepsClassesList body h).inScope.bind fun _ => .pure _
  | .branch condition yes no, _, h =>
    obtain ⟨h, hno⟩ := classFree_append.1 h
    obtain ⟨hc, hyes⟩ := classFree_append.1 h
    exact (condition.keepsClasses hc).bind fun _ => (yes.keepsClasses hyes).bind fun _ =>
      (Stmt.keepsClassesOption no hno).bind fun _ => .pure _
  | .loop condition body, _, h =>
    obtain ⟨hc, hb⟩ := classFree_append.1 h
    exact (condition.keepsClasses hc).bind fun _ => (body.keepsClasses hb).bind fun _ => .pure _
  | .count init condition step body, _, h =>
    obtain ⟨h, hb⟩ := classFree_append.1 h
    obtain ⟨h, hstep⟩ := classFree_append.1 h
    obtain ⟨hi, hc⟩ := classFree_append.1 h
    exact (Stmt.keepsClassesOption init hi).bind fun _ => (Expr.keepsClassesOption condition hc).bind fun _ =>
      (Expr.keepsClassesOption step hstep).bind fun _ => (body.keepsClasses hb).bind fun _ => .pure _
  | .result value, _, h => exact (Expr.keepsClassesOption value h).bind fun _ => .pure _
  | .expr e, _, h => exact (e.keepsClasses h).bind fun _ => .pure _
  | .var ⟨_, name, init⟩, _, h =>
    exact (KeepsClasses.declare name.text).bind fun _ =>
      ((Expr.keepsClassesOption init h).bind fun _ => .pure _).bind fun _ => .pure _
  | .function ⟨name, params, body, isStatic⟩, _, h =>
    have hbody := (keepsClasses_declareParams params).bind fun _ => Stmt.keepsClassesList body h
    have hdecl : KeepsClasses (FunctionDecl.resolve ⟨name, params, body, isStatic⟩) :=
      hbody.inScope.bind fun _ => .pure _
    exact (KeepsClasses.declare name.text).bind fun _ => hdecl.bind fun _ => .pure _
  | .print value, _, h => exact (value.keepsClasses h).bind fun _ => .pure _
  | .classDef _ _ _ _, ht, _ | .classImpl _ _, ht, _ => cases ht
  | .typeDef _ _, _, _ => exact .pure _

private theorem Stmt.keepsClassesList (l : List Stmt) (h : ClassFree (Stmt.nodesList l)) :
    KeepsClasses (Stmt.resolveList l) := by
  match l with
  | [] => exact .pure _
  | t :: rest =>
    obtain ⟨ht, hr⟩ := classFree_append.1 h
    exact (t.keepsClasses ht).bind fun _ => (Stmt.keepsClassesList rest hr).bind fun _ => .pure _

theorem Stmt.keepsClassesOption (o : Option Stmt) (h : ClassFree (Stmt.nodesOption o)) :
    KeepsClasses (Stmt.resolveOption o) := by
  match o with
  | none => exact .pure _
  | some t => exact (t.keepsClasses h).bind fun _ => .pure _

end

private theorem classes_updateClass (name : String) (f : ClassInfo → ClassInfo) (s : Scopes) :
    ((updateClass name f).next s).classes = s.classes.update name f :=
  rfl

/-- The superclass is noted by its name. -/
theorem classes_resolveSuperclass (name : Name) (superclass : Option Ref) (s : Scopes) :
    ((resolveSuperclass name superclass).next s).classes = s.classes.update name.text fun info =>
      { info with superclass := (superclass.map (·.name.text)).or info.superclass } := by
  cases superclass with
  | none => rfl
  | some ref =>
    have hname : ((reference .variable ref).value s).name = ref.name := by
      unfold value
      rw [run_reference]
      cases depth? s.stack ref.name.text <;> rfl
    refine (classes_updateClass name.text _ ((reference .variable ref).next s)).trans ?_
    rw [KeepsClasses.reference .variable ref s]
    refine congrArg (ClassTable.update s.classes name.text) (funext fun info => ?_)
    exact congrArg (fun n : Name => { info with superclass := some n.text }) hname

/-- The names of the properties are added to what is known about the class. -/
private theorem classes_resolveProperties (className : String) (l : List VarDecl)
    (h : ClassFree (VarDecl.nodesList l))
    (f : ClassInfo → ClassInfo) {s : Scopes} {t : ClassTable} (hs : s.classes = t.update className f) :
    ((VarDecl.resolveProperties className l).next s).classes = t.update className fun info =>
      { f info with properties := (f info).properties ++ l.map (·.name.text) } := by
  induction l generalizing f s with
  | nil =>
    refine hs.trans (congrArg (t.update className) (funext fun info => ?_))
    rw [List.map_nil, List.append_nil]
  | cons d rest ih =>
    obtain ⟨type, name, init⟩ := d
    obtain ⟨hi, hr⟩ := classFree_append.1 h
    let add := fun info : ClassInfo => { info with properties := info.properties ++ [name.text] }
    let s₁ := (updateClass className add).next s
    have hs₁ : ((Expr.resolveOption init).next s₁).classes = t.update className fun info => add (f info) := by
      rw [Expr.keepsClassesOption init hi s₁, classes_updateClass, hs, ClassTable.update_update]
    refine (ih hr _ hs₁).trans (congrArg (t.update className) (funext fun info => ?_))
    simp [add]

/-- What the analysis learns from an interface. -/
private theorem classes_classDef {name : Name} {superclass : Option Ref} {methods : List FunctionDecl}
    {properties : List VarDecl} (h : ClassFree (VarDecl.nodesList properties)) (s : Scopes) :
    ((Stmt.classDef name superclass methods properties).resolve.next s).classes =
      s.classes.update name.text fun info =>
        ⟨(superclass.map (·.name.text)).or info.superclass, info.properties ++ properties.map (·.name.text),
          info.methods ++ methods.map (·.name.text)⟩ := by
  let s₁ := (declare name.text).next s
  let s₂ := (resolveSuperclass name superclass).next s₁
  have hs₂ : s₂.classes = s.classes.update name.text fun info =>
      { info with superclass := (superclass.map (·.name.text)).or info.superclass } := by
    rw [classes_resolveSuperclass, KeepsClasses.declare name.text s]
  rw [Stmt.resolve_classDef]
  refine (classes_updateClass name.text _ ((VarDecl.resolveProperties name.text properties).next s₂)).trans ?_
  rw [classes_resolveProperties name.text properties h _ hs₂, ClassTable.update_update]

/-- What the analysis learns from an implementation. -/
private theorem classes_classImpl {name : Name} {methods : List FunctionDecl}
    (h : ClassFree (FunctionDecl.nodesList methods))
    (s : Scopes) : ((Stmt.classImpl name methods).resolve.next s).classes = (s.implemented name methods).classes := by
  have hbody := ((keepsClasses_declareAll
    ("self" :: "super" :: (s.implemented name methods).classes.members name.text)).bind fun _ =>
      FunctionDecl.keepsClassesList methods h).inScope
  exact hbody (s.implemented name methods)

/-! ### The properties of classes -/

/-- The table has the classes of the list, and it knows their properties. -/
structure Lists (stmts : List Stmt) (known : List String) (t : ClassTable) : Prop where
  keys : Bindings.keys t = known
  members : ∀ cls ∈ known, ∀ x, HasProperty stmts cls x → x ∈ t.members cls

namespace Lists

variable {stmts : List Stmt} {known : List String} {t : ClassTable}

/-- Nothing is known before a program. -/
theorem nil : Lists stmts [] [] :=
  ⟨rfl, nofun⟩

/-- What is known of a class stays known. -/
private theorem extends_members {t' : ClassTable} (h : Lists stmts known t) (ht : t.Extends t') {cls x : String}
    (hcls : cls ∈ known) (hx : HasProperty stmts cls x) : x ∈ t'.members cls :=
  ht.members cls (h.members cls hcls x hx)

/-- A class becomes known with its interface. -/
private theorem interface (h : Lists stmts known t) (honce : (rootClass :: declaredClasses stmts).Nodup) {name : Name}
    {ref : Ref} {methods : List FunctionDecl} {properties : List VarDecl}
    (hmem : .classDef name (some ref) methods properties ∈ stmts) (hnew : name.text ∉ known)
    (hsuper : ref.name.text ∈ rootClass :: known) :
    Lists stmts (known ++ [name.text]) (t.update name.text fun info =>
      ⟨((some ref).map (·.name.text)).or info.superclass, info.properties ++ properties.map (·.name.text),
        info.methods ++ methods.map (·.name.text)⟩) := by
  obtain ⟨hroot, honce⟩ := List.nodup_cons.1 honce
  generalize ht' : t.update name.text _ = t'
  have hkeys : Bindings.keys t' = known ++ [name.text] := by
    rw [← ht', ← h.keys]
    exact Bindings.keys_put_of_not_mem (h.keys.symm ▸ hnew) _
  have hnone : Bindings.get? t name.text = none := by
    rw [← h.keys, Bindings.mem_keys] at hnew
    exact Option.not_isSome_iff_eq_none.1 hnew
  have hinfo : Bindings.get? t' name.text =
      some ⟨some ref.name.text, properties.map (·.name.text), methods.map (·.name.text)⟩ := by
    rw [← ht', ClassTable.get?_update_self, hnone]
    rfl
  have hextends : t.Extends t' := by
    rw [← ht']
    refine .update fun info hsome => ?_
    rw [hnone] at hsome
    cases hsome
  refine ⟨hkeys, fun cls hcls x hx => ?_⟩
  rcases List.mem_append.1 hcls with hcls | hcls
  · exact h.extends_members hextends hcls hx
  · obtain rfl := List.mem_singleton.1 hcls
    rcases hx.cases_of_mem honce hmem with hown | hinherited
    · exact ClassTable.mem_members_of_own (ClassTable.mem_own.2 ⟨_, hinfo, .inl hown⟩)
    · have hknown : ref.name.text ∈ known := by
        refine (List.mem_cons.1 hsuper).resolve_left fun hname => hroot ?_
        exact hname ▸ hinherited.mem_declared
      exact ClassTable.mem_members_of_above ⟨_, hinfo, rfl⟩ (h.extends_members hextends hknown hinherited)

/-- An implementation adds its methods to a class that is known. -/
private theorem implementation (h : Lists stmts known t) {cls : String} (hcls : cls ∈ known) (methods : List String) :
    Lists stmts known (t.update cls fun info => { info with methods := info.methods ++ methods }) := by
  generalize ht' : t.update cls _ = t'
  have hkeys : Bindings.keys t' = known := by
    rw [← ht']
    exact (Bindings.keys_put_of_mem (h.keys.symm ▸ hcls) _).trans h.keys
  have hextends : t.Extends t' := by
    rw [← ht']
    exact .update fun info _ => ⟨rfl, List.Subset.refl _, List.subset_append_left _ _⟩
  exact ⟨hkeys, fun c hc x hx => h.extends_members hextends hc hx⟩

end Lists

/-! ### The sites of an orderly program -/

theorem declaredClasses_concat (done : List Stmt) (t : Stmt) :
    declaredClasses (done ++ [t]) = declaredClasses done ++ t.interface?.toList := by
  unfold declaredClasses
  rw [List.filterMap_append]
  cases h : t.interface? <;> simp [h]

section Orderly

variable {stmts done rest : List Stmt} {t : Stmt} {s : Scopes}

/-- A class is not known before its interface. -/
theorem Orderly.interface_new (h : Orderly stmts) (hstmts : stmts = done ++ t :: rest) {cls : String}
    (ht : t.interface? = some cls) : cls ∉ rootClass :: declaredClasses done := by
  have honce := h.once
  have hsplit : declaredClasses stmts = declaredClasses done ++ cls :: declaredClasses rest := by
    rw [hstmts]
    unfold declaredClasses
    rw [List.filterMap_append, List.filterMap_cons, ht]
  rw [hsplit, ← List.cons_append] at honce
  intro hmem
  exact (List.nodup_append.1 honce).2.2 cls hmem cls List.mem_cons_self rfl

/-- After a statement of the program the table lists the classes that were declared up to there. -/
theorem Orderly.lists_next (h : Orderly stmts) (hstmts : stmts = done ++ t :: rest)
    (ht : t.Timely (declaredClasses done)) (hlists : Lists stmts (declaredClasses done) s.classes) :
    Lists stmts (declaredClasses (done ++ [t])) (t.resolve.next s).classes := by
  have hmem : t ∈ stmts := hstmts ▸ List.mem_append_right _ List.mem_cons_self
  have htail := h.top t hmem
  rw [declaredClasses_concat]
  match t with
  | .classDef name (some ref) methods properties =>
    have hfree : ClassFree (VarDecl.nodesList properties) := (classFree_append.1 (classFree_append.1 htail).2).2
    have hnew := h.interface_new hstmts rfl
    rw [classes_classDef hfree]
    exact hlists.interface h.once hmem (fun hknown => hnew (List.mem_cons_of_mem _ hknown)) ht
  | .classDef _ none _ _ => cases ht
  | .classImpl name methods =>
    rw [classes_classImpl htail]
    exact (List.append_nil _).symm ▸ hlists.implementation ht _
  | .block _ | .branch _ _ _ | .loop _ _ | .count _ _ _ _ | .result _ | .expr _ | .var _ | .function _ | .print _
  | .typeDef _ _ =>
    have hfree : ∀ u : Stmt, (Node.stmt u).isClass = false → ClassFree u.nodes.tail → ClassFree u.nodes := by
      intro u hu hbelow
      rw [Stmt.nodes.eq_def] at hbelow ⊢
      exact List.forall_mem_cons.2 ⟨hu, hbelow⟩
    rw [Stmt.keepsClasses _ (hfree _ rfl htail) s]
    exact (List.append_nil _).symm ▸ hlists

/-- Below the top level nothing is implemented. -/
private theorem Orderly.fits_below (h : Orderly stmts) (ht : t ∈ stmts) {P : Node → Prop}
    (hP : ∀ n ∈ t.nodes.tail, n.WellNamed ∧ P n) : ∀ n ∈ t.nodes.tail, n.Fits (HasProperty stmts) ∧ P n := by
  intro n hn
  obtain ⟨hnamed, hPn⟩ := hP n hn
  refine ⟨⟨hnamed, fun name methods hclass => ?_⟩, hPn⟩
  have hfalse := h.top t ht n hn
  rw [hclass] at hfalse
  cases hfalse

section Statement

variable (h : Orderly stmts) (hstmts : stmts = done ++ t :: rest) (htimely : t.Timely (declaredClasses done))
  (hlists : Lists stmts (declaredClasses done) s.classes) {σ : List Scope}
  (hs : Matches (HasProperty stmts) s.stack σ) {P : Node → Prop} (hP : ∀ n ∈ t.nodes.tail, n.WellNamed ∧ P n)

include h hstmts hs hP

/-- The analysis comes to the initial values of an interface. -/
theorem Orderly.sited_properties {name : Name} {superclass : Option Ref} {methods : List FunctionDecl}
    {properties : List VarDecl} (ht : t = .classDef name superclass methods properties) (hname : IsName name.text) :
    AllSited (HasProperty stmts) P (VarDecl.sitesList ((VarDecl.resolveProperties name.text properties).value
      ((resolveSuperclass name superclass).next ((declare name.text).next s))) (declareIn [name.text] σ)) := by
  have hmem : t ∈ stmts := hstmts ▸ List.mem_append_right _ List.mem_cons_self
  have hfits := h.fits_below hmem hP
  subst ht
  obtain ⟨-, hfits⟩ := List.forall_mem_append.1 hfits
  obtain ⟨-, hfits⟩ := List.forall_mem_append.1 hfits
  refine VarDecl.allSitedProperties name.text properties ?_ hfits
  rw [stack_resolveSuperclass, stack_declare]
  exact hs.declareTop (List.forall_mem_singleton.2 hname)

include htimely hlists

/-- The analysis comes to the methods of an implementation with the properties of the class. -/
theorem Orderly.sited_methods {name : Name} {methods : List FunctionDecl} (ht : t = .classImpl name methods)
    (hparams : ∀ d ∈ methods, ∀ x ∈ paramNames d.params, IsName x) :
    AllSited (HasProperty stmts) P (FunctionDecl.sitesList
      ((FunctionDecl.resolveList methods).value (s.enterMembers name methods)) (⟨some name.text, []⟩ :: σ)) := by
  have hmem : t ∈ stmts := hstmts ▸ List.mem_append_right _ List.mem_cons_self
  have hfits := h.fits_below hmem hP
  subst ht
  have hmembers := hlists.implementation htimely (methods.map (·.name.text))
  refine FunctionDecl.allSitedList methods ?_ hparams hfits
  exact hs.enterMembers fun x hx => hmembers.members _ htimely x hx

/-- The analysis comes to the sites of a statement with the properties of the classes. -/
theorem Orderly.sited_statement (hnamed : (Node.stmt t).WellNamed) (hPt : P (.stmt t)) :
    AllSited (HasProperty stmts) P ((t.resolve.value s).sites σ) := by
  by_cases himpl : ∃ name methods, t = .classImpl name methods
  · obtain ⟨name, methods, rfl⟩ := himpl
    refine .node hPt hs (h.sited_methods hstmts htimely hlists hs hP rfl fun d hd x hx => ?_)
    exact hnamed.1 x (List.mem_append_left _ (List.mem_flatMap.2 ⟨d, hd, hx⟩))
  · have hmem : t ∈ stmts := hstmts ▸ List.mem_append_right _ List.mem_cons_self
    have hfits := h.fits_below hmem hP
    refine t.allSited hs ?_
    rw [Stmt.nodes.eq_def] at hfits ⊢
    refine List.forall_mem_cons.2 ⟨⟨⟨hnamed, fun name methods hnode => ?_⟩, hPt⟩, hfits⟩
    exact absurd ⟨name, methods, Node.stmt.inj hnode⟩ himpl

end Statement

/-- The analysis comes to all the sites of a program with the properties of the classes. -/
private theorem Orderly.sited_suffix (h : Orderly stmts) {P : Node → Prop}
    (hP : ∀ n ∈ Stmt.nodesList stmts, n.WellNamed ∧ P n)
    (hstmts : stmts = done ++ rest) (horder : InOrder (declaredClasses done) rest)
    (hlists : Lists stmts (declaredClasses done) s.classes) {σ : List Scope}
    (hs : Matches (HasProperty stmts) s.stack σ) :
    AllSited (HasProperty stmts) P (Stmt.sitesList ((Stmt.resolveList rest).value s) σ) := by
  induction rest generalizing done s σ with
  | nil => exact .nil
  | cons t rest ih =>
    obtain ⟨ht, horder⟩ := horder
    have hnodes : ∀ n ∈ t.nodes, n.WellNamed ∧ P n := by
      intro n hn
      refine hP n (Stmt.mem_nodesList.2 ⟨t, ?_, hn⟩)
      exact hstmts ▸ List.mem_append_right _ List.mem_cons_self
    obtain ⟨hnamed, hPt⟩ := hnodes (.stmt t) (Node.stmt t).mem_below
    have hfirst := h.sited_statement hstmts ht hlists hs (fun n hn => hnodes n (List.mem_of_mem_tail hn)) hnamed hPt
    have hs₁ : Matches (HasProperty stmts) (t.resolve.next s).stack (declareIn t.declared σ) := by
      rw [t.stack_next]
      exact hs.declareTop (t.isName_declared fun n hn => (hnodes n hn).1)
    rw [← declaredClasses_concat] at horder
    have hsplit : stmts = (done ++ [t]) ++ rest := by rw [hstmts, List.append_assoc, List.singleton_append]
    have hrest := ih hsplit horder (h.lists_next hstmts ht hlists) hs₁
    rw [← t.declared_value s] at hrest
    exact hfirst.append hrest

end Orderly

/-- The analysis comes to all the sites of an orderly program with the properties of its classes. -/
theorem Orderly.sited {stmts : List Stmt} (h : Orderly stmts) {P : Node → Prop}
    (hP : ∀ n ∈ Stmt.nodesList stmts, n.WellNamed ∧ P n) :
    AllSited (HasProperty stmts) P (Stmt.sitesList (resolveProgram Scopes.initial stmts).1 [⟨none, []⟩]) :=
  h.sited_suffix (s := { Scopes.initial with reports := #[] }) hP (List.nil_append _).symm h.order .nil
    (.cons ⟨rfl, List.forall_mem_nil _⟩ .nil)

end ObjScript
