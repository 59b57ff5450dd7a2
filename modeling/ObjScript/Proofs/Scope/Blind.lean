import ObjScript.Proofs.Scope.Visits
import ObjScript.Proofs.Syntax.Unlocated

/-!
# The analysis of scopes never looks at places

`Blind f p q` says that `p` and `q` come to the same, up to the places, from what is known up to the places.  A
reference is found by the text of its name, and its place is only copied into the report.
-/

namespace ObjScript

/-- The report without its place. -/
def Report.unlocated (r : Report) : Report :=
  { r with name := r.name.unlocated }

/-- What the analysis knows, without the places. -/
def Scopes.unlocated (s : Scopes) : Scopes :=
  { s with reports := s.reports.map Report.unlocated }

namespace Resolve

variable {α β γ δ : Type}

/-- The steps of the analysis do the same, up to the places. -/
def Blind (f : α → β) (p : Resolve α) (q : Resolve β) : Prop :=
  ∀ s : Scopes, q.run s.unlocated = (f (p.value s), (p.next s).unlocated)

namespace Blind

variable {f : α → β} {h : γ → δ} {p : Resolve α} {q : Resolve β}

private theorem pure {a : α} {b : β} (hab : b = f a) : Blind f (Pure.pure a) (Pure.pure b) := by
  intro s
  rw [hab]
  rfl

private theorem bind {k : α → Resolve γ} {l : β → Resolve δ} (hp : Blind f p q) (hk : ∀ a, Blind h (k a) (l (f a))) :
    Blind h (p >>= k) (q >>= l) := by
  intro s
  change (l (q.run s.unlocated).1).run (q.run s.unlocated).2 = _
  rw [hp s]
  exact hk (p.value s) (p.next s)

/-- A step whose value has no place, followed by another one. -/
private theorem bindSame {p q : Resolve α} {k : α → Resolve γ} {l : α → Resolve δ} (hp : Blind id p q)
    (hk : ∀ a, Blind h (k a) (l a)) : Blind h (p >>= k) (q >>= l) :=
  hp.bind hk

private theorem map {k : α → γ} {l : β → δ} (hp : Blind f p q) (hk : ∀ a, l (f a) = h (k a)) :
    Blind h (k <$> p) (l <$> q) := by
  rw [map_eq_pure_bind, map_eq_pure_bind]
  exact hp.bind fun a => .pure (hk a)

/-- A change that the places have no part in. -/
private theorem modify {k : Scopes → Scopes} (hk : ∀ s, k s.unlocated = (k s).unlocated) :
    Blind id (modify k) (modify k) :=
  fun s => congrArg (Prod.mk ()) (hk s)

private theorem declare (name : String) : Blind id (declare name) (declare name) := by
  refine modify fun s => ?_
  obtain ⟨stack, classes, reports⟩ := s
  cases stack <;> rfl

private theorem updateClass (name : String) (k : ClassInfo → ClassInfo) :
    Blind id (updateClass name k) (updateClass name k) :=
  modify fun _ => rfl

private theorem inScope (hp : Blind f p q) : Blind f (inScope p) (inScope q) := by
  refine bindSame (modify ?_) fun _ => hp.bind fun _ => bindSame (modify ?_) fun _ => .pure rfl
  all_goals exact fun _ => rfl

/-- A step that looks at what is known about the classes. -/
private theorem onClasses {k : ClassTable → Resolve α} {l : ClassTable → Resolve β} (hk : ∀ t, Blind f (k t) (l t)) :
    Blind f (get >>= fun s => k s.classes) (get >>= fun s => l s.classes) :=
  fun s => hk s.classes s

/-- The scope of a reference is found by the text of its name. -/
private theorem reference (kind : RefKind) (ref : Ref) :
    Blind Ref.unlocated (reference kind ref) (reference kind ref.unlocated) := by
  intro s
  unfold value next
  -- the depth comes from the names in the scopes, and these have no places
  have hdepth : depth? s.unlocated.stack ref.unlocated.name.text = depth? s.stack ref.name.text := rfl
  rw [run_reference, run_reference, hdepth]
  cases depth? s.stack ref.name.text with
  | none => rfl
  | some depth =>
    have hpush : (s.reports.map Report.unlocated).push (Report.unlocated ⟨kind, ref.name, depth⟩) =
        (s.reports.push ⟨kind, ref.name, depth⟩).map Report.unlocated := Array.map_push.symm
    exact congrArg (fun reports => (_, Scopes.mk s.stack s.classes reports)) hpush

end Blind

end Resolve

open Resolve

private theorem blind_declareParams (params : List Param) :
    Blind id (declareParams params) (declareParams (params.map Param.unlocated)) := by
  induction params with
  | nil => exact .pure rfl
  | cons p rest ih => exact (Blind.declare p.name.text).bindSame fun _ => ih

private theorem blind_declareAll (names : List String) : Blind id (declareAll names) (declareAll names) := by
  induction names with
  | nil => exact .pure rfl
  | cons name rest ih => exact (Blind.declare name).bindSame fun _ => ih

/-- Functions keep their names. -/
private theorem FunctionDecl.unlocatedList_names (l : List FunctionDecl) :
    (FunctionDecl.unlocatedList l).map (·.name.text) = l.map (·.name.text) := by
  rw [FunctionDecl.unlocatedList_eq, List.map_map]
  refine List.map_congr_left fun d _ => ?_
  change d.unlocated.name.text = d.name.text
  rw [d.unlocated_name, Name.unlocated_text]

private theorem blind_resolveSuperclass (name : Name) (superclass : Option Ref) :
    Blind (Option.map Ref.unlocated) (resolveSuperclass name superclass)
      (resolveSuperclass name.unlocated (superclass.map Ref.unlocated)) := by
  cases superclass with
  | none =>
    unfold resolveSuperclass
    simp only [Option.map_none, pure_bind]
    exact (Blind.updateClass name.text _).bindSame fun _ => .pure rfl
  | some ref =>
    have hfound :=
      (Blind.reference .variable ref).map (h := Option.map Ref.unlocated) (k := some) (l := some) fun _ => rfl
    refine hfound.bind fun found => .bindSame ?_ fun _ => .pure rfl
    cases found <;> exact Blind.updateClass name.text _

mutual

theorem Expr.blind_resolve (e : Expr) : Blind Expr.unlocated e.resolve e.unlocated.resolve := by
  match e with
  | .literal _ => exact .pure rfl
  | .variable ref | .selfRef ref | .superRef ref => exact (Blind.reference _ ref).bind fun _ => .pure rfl
  | .grouping inner => exact inner.blind_resolve.bind fun _ => .pure rfl
  | .unary _ _ operand => exact operand.blind_resolve.bind fun _ => .pure rfl
  | .binary left _ _ right | .logical left _ right =>
    exact left.blind_resolve.bind fun _ => right.blind_resolve.bind fun _ => .pure rfl
  | .ternary condition yes no =>
    exact condition.blind_resolve.bind fun _ => yes.blind_resolve.bind fun _ => no.blind_resolve.bind fun _ =>
      .pure rfl
  | .assign target _ _ value =>
    exact value.blind_resolve.bind fun _ => (Blind.reference _ target).bind fun _ => .pure rfl
  | .array items => exact (Expr.blind_resolveList items).bind fun _ => .pure rfl
  | .index object place => exact object.blind_resolve.bind fun _ => place.blind_resolve.bind fun _ => .pure rfl
  | .setIndex object place _ _ value =>
    exact value.blind_resolve.bind fun _ => object.blind_resolve.bind fun _ => place.blind_resolve.bind fun _ =>
      .pure rfl
  | .get object _ => exact object.blind_resolve.bind fun _ => .pure rfl
  | .set object _ _ _ value => exact value.blind_resolve.bind fun _ => object.blind_resolve.bind fun _ => .pure rfl
  | .call callee args =>
    exact callee.blind_resolve.bind fun _ => (Expr.blind_resolveList args).bind fun _ => .pure rfl
  | .block _ params body =>
    have hbody := (blind_declareParams params).bindSame fun _ => Stmt.blind_resolveList body
    exact hbody.inScope.bind fun _ => .pure rfl

theorem Expr.blind_resolveList (l : List Expr) :
    Blind Expr.unlocatedList (Expr.resolveList l) (Expr.resolveList (Expr.unlocatedList l)) := by
  match l with
  | [] => exact .pure rfl
  | e :: rest => exact e.blind_resolve.bind fun _ => (Expr.blind_resolveList rest).bind fun _ => .pure rfl

theorem Expr.blind_resolveOption (o : Option Expr) :
    Blind Expr.unlocatedOption (Expr.resolveOption o) (Expr.resolveOption (Expr.unlocatedOption o)) := by
  match o with
  | none => exact .pure rfl
  | some e => exact e.blind_resolve.bind fun _ => .pure rfl

theorem VarDecl.blind_resolveProperties (className : String) (l : List VarDecl) :
    Blind VarDecl.unlocatedList (VarDecl.resolveProperties className l)
      (VarDecl.resolveProperties className (VarDecl.unlocatedList l)) := by
  match l with
  | [] => exact .pure rfl
  | ⟨_, name, init⟩ :: rest =>
    have hproperty := Blind.updateClass className fun info =>
      { info with properties := info.properties ++ [name.text] }
    exact hproperty.bindSame fun _ => (Expr.blind_resolveOption init).bind fun _ =>
      (VarDecl.blind_resolveProperties className rest).bind fun _ => .pure rfl

theorem FunctionDecl.blind_resolve (d : FunctionDecl) :
    Blind FunctionDecl.unlocated d.resolve d.unlocated.resolve := by
  match d with
  | ⟨_, params, body, _⟩ =>
    have hbody := (blind_declareParams params).bindSame fun _ => Stmt.blind_resolveList body
    exact hbody.inScope.bind fun _ => .pure rfl

theorem FunctionDecl.blind_resolveList (l : List FunctionDecl) :
    Blind FunctionDecl.unlocatedList (FunctionDecl.resolveList l)
      (FunctionDecl.resolveList (FunctionDecl.unlocatedList l)) := by
  match l with
  | [] => exact .pure rfl
  | d :: rest => exact d.blind_resolve.bind fun _ => (FunctionDecl.blind_resolveList rest).bind fun _ => .pure rfl

theorem Stmt.blind_resolve (t : Stmt) : Blind Stmt.unlocated t.resolve t.unlocated.resolve := by
  match t with
  | .block body => exact (Stmt.blind_resolveList body).inScope.bind fun _ => .pure rfl
  | .branch condition yes no =>
    exact condition.blind_resolve.bind fun _ => yes.blind_resolve.bind fun _ =>
      (Stmt.blind_resolveOption no).bind fun _ => .pure rfl
  | .loop condition body => exact condition.blind_resolve.bind fun _ => body.blind_resolve.bind fun _ => .pure rfl
  | .count init condition step body =>
    exact (Stmt.blind_resolveOption init).bind fun _ => (Expr.blind_resolveOption condition).bind fun _ =>
      (Expr.blind_resolveOption step).bind fun _ => body.blind_resolve.bind fun _ => .pure rfl
  | .result value => exact (Expr.blind_resolveOption value).bind fun _ => .pure rfl
  | .expr e => exact e.blind_resolve.bind fun _ => .pure rfl
  | .var ⟨type, name, init⟩ =>
    have hinit : Blind VarDecl.unlocated (VarDecl.resolve ⟨type, name, init⟩)
        (VarDecl.resolve (VarDecl.unlocated ⟨type, name, init⟩)) :=
      (Expr.blind_resolveOption init).bind fun _ => .pure rfl
    exact (Blind.declare name.text).bindSame fun _ => hinit.bind fun _ => .pure rfl
  | .function ⟨name, params, body, isStatic⟩ =>
    exact (Blind.declare name.text).bindSame fun _ =>
      (FunctionDecl.blind_resolve ⟨name, params, body, isStatic⟩).bind fun _ => .pure rfl
  | .print value => exact value.blind_resolve.bind fun _ => .pure rfl
  | .classDef name superclass methods properties =>
    rw [Stmt.unlocated, Stmt.resolve_classDef, Stmt.resolve_classDef, FunctionDecl.unlocatedList_names]
    exact (Blind.declare name.text).bindSame fun _ => (blind_resolveSuperclass name superclass).bind fun _ =>
      (VarDecl.blind_resolveProperties name.text properties).bind fun _ =>
        (Blind.updateClass name.text _).bindSame fun _ => .pure rfl
  | .classImpl name methods =>
    have hmethods := fun members : List String =>
      (blind_declareAll ("self" :: "super" :: members)).bindSame fun _ => FunctionDecl.blind_resolveList methods
    have himplemented := Blind.updateClass name.text fun info =>
      { info with methods := info.methods ++ methods.map (·.name.text) }
    rw [Stmt.unlocated, Stmt.resolve, Stmt.resolve, FunctionDecl.unlocatedList_names]
    exact himplemented.bindSame fun _ => .onClasses (f := Stmt.unlocated)
      (k := fun t => do
        let methods ← inScope do
          declareAll ("self" :: "super" :: t.members name.text)
          FunctionDecl.resolveList methods
        return Stmt.classImpl name methods)
      (l := fun t => do
        let methods ← inScope do
          declareAll ("self" :: "super" :: t.members name.text)
          FunctionDecl.resolveList (FunctionDecl.unlocatedList methods)
        return Stmt.classImpl name.unlocated methods) fun t => (hmethods (t.members name.text)).inScope.bind fun _ =>
          .pure rfl
  | .typeDef _ _ => exact .pure rfl

private theorem Stmt.blind_resolveList (l : List Stmt) :
    Blind Stmt.unlocatedList (Stmt.resolveList l) (Stmt.resolveList (Stmt.unlocatedList l)) := by
  match l with
  | [] => exact .pure rfl
  | t :: rest => exact t.blind_resolve.bind fun _ => (Stmt.blind_resolveList rest).bind fun _ => .pure rfl

theorem Stmt.blind_resolveOption (o : Option Stmt) :
    Blind Stmt.unlocatedOption (Stmt.resolveOption o) (Stmt.resolveOption (Stmt.unlocatedOption o)) := by
  match o with
  | none => exact .pure rfl
  | some t => exact t.blind_resolve.bind fun _ => .pure rfl

end

/-- From trees without places the analysis makes the same trees and reports without places. -/
theorem resolveProgram_unlocated (s : Scopes) (l : List Stmt) :
    resolveProgram s.unlocated (l.map Stmt.unlocated) =
      ((resolveProgram s l).1.map Stmt.unlocated, (resolveProgram s l).2.unlocated) := by
  have hlist := Stmt.blind_resolveList l { s with reports := #[] }
  have hstart : ({ s with reports := #[] } : Scopes).unlocated = { s.unlocated with reports := #[] } :=
    congrArg (Scopes.mk s.stack s.classes) Array.map_empty
  rw [hstart, Stmt.unlocatedList_eq, Stmt.unlocatedList_eq] at hlist
  exact hlist

end ObjScript
