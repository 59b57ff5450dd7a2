import ObjScript.Proofs.Scope.Visits

/-!
# The reports of the analysis

The analysis of scopes only ever adds to its reports and never looks at them: a step that starts from more
reports does the same and keeps them in front of its own (`Resolve.AddsReports`).  So the analysis of two
lists of statements in a row is that of both at once (`Stmt.resolveList_append`).
-/

namespace ObjScript

/-- What is known, with more reports before the others. -/
def Scopes.withReports (s : Scopes) (earlier : Array Report) : Scopes :=
  { s with reports := earlier ++ s.reports }

namespace Resolve

variable {α β : Type}

/-- The step does the same whatever was reported before, and adds its reports after those. -/
def AddsReports (step : Resolve α) : Prop :=
  ∀ (s : Scopes) (earlier : Array Report),
    step.run (s.withReports earlier) = (step.value s, (step.next s).withReports earlier)

namespace AddsReports

private theorem pure (a : α) : AddsReports (pure a) :=
  fun _ _ => rfl

private theorem bind {step : Resolve α} {k : α → Resolve β} (hstep : AddsReports step) (hk : ∀ a, AddsReports (k a)) :
    AddsReports (step >>= k) := by
  intro s earlier
  have hfirst := hstep s earlier
  have hsecond := hk (step.value s) (step.next s) earlier
  change (k (step.run (s.withReports earlier)).1).run (step.run (s.withReports earlier)).2 = _
  rw [hfirst]
  exact hsecond

private theorem map {step : Resolve α} (f : α → β) (hstep : AddsReports step) : AddsReports (f <$> step) :=
  hstep.bind fun a => pure (f a)

/-- A change that the reports have no part in. -/
private theorem modify {f : Scopes → Scopes}
    (hf : ∀ s earlier, f (s.withReports earlier) = (f s).withReports earlier) :
    AddsReports (modify f) :=
  fun s earlier => congrArg (Prod.mk ()) (hf s earlier)

private theorem declare (name : String) : AddsReports (declare name) := by
  refine modify fun s earlier => ?_
  obtain ⟨stack, classes, reports⟩ := s
  cases stack <;> rfl

private theorem updateClass (name : String) (f : ClassInfo → ClassInfo) : AddsReports (updateClass name f) :=
  modify fun _ _ => rfl

private theorem inScope {step : Resolve α} (hstep : AddsReports step) : AddsReports (inScope step) :=
  (modify fun _ _ => rfl).bind fun _ => hstep.bind fun a => (modify fun _ _ => rfl).bind fun _ => pure a

/-- A step that looks at what is known about the classes. -/
private theorem onClasses {k : ClassTable → Resolve α} (hk : ∀ t, AddsReports (k t)) :
    AddsReports (get >>= fun s => k s.classes) :=
  fun s earlier => hk s.classes s earlier

private theorem reference (kind : RefKind) (ref : Ref) : AddsReports (reference kind ref) := by
  intro s earlier
  unfold value next
  rw [run_reference, run_reference]
  dsimp only [Scopes.withReports]
  cases depth? s.stack ref.name.text with
  | none => rfl
  | some depth =>
    have hpush (r : Report) : (earlier ++ s.reports).push r = earlier ++ s.reports.push r := by simp
    exact congrArg (fun r => (_, Scopes.mk s.stack s.classes r)) (hpush _)

end AddsReports

end Resolve

open Resolve

private theorem addsReports_declareParams (params : List Param) : AddsReports (declareParams params) := by
  induction params with
  | nil => exact .pure ()
  | cons p rest ih => exact (AddsReports.declare _).bind fun _ => ih

private theorem addsReports_declareAll (names : List String) : AddsReports (declareAll names) := by
  induction names with
  | nil => exact .pure ()
  | cons name rest ih => exact (AddsReports.declare name).bind fun _ => ih

mutual

theorem Expr.addsReports (e : Expr) : AddsReports e.resolve := by
  match e with
  | .literal _ => exact .pure _
  | .variable ref | .selfRef ref | .superRef ref => exact (AddsReports.reference _ ref).bind fun _ => .pure _
  | .grouping inner => exact inner.addsReports.bind fun _ => .pure _
  | .unary _ _ operand => exact operand.addsReports.bind fun _ => .pure _
  | .binary left _ _ right | .logical left _ right =>
    exact left.addsReports.bind fun _ => right.addsReports.bind fun _ => .pure _
  | .ternary condition yes no =>
    exact condition.addsReports.bind fun _ => yes.addsReports.bind fun _ => no.addsReports.bind fun _ => .pure _
  | .assign target _ _ value =>
    exact value.addsReports.bind fun _ => (AddsReports.reference _ target).bind fun _ => .pure _
  | .array items => exact (Expr.addsReportsList items).bind fun _ => .pure _
  | .index object place => exact object.addsReports.bind fun _ => place.addsReports.bind fun _ => .pure _
  | .setIndex object place _ _ value =>
    exact value.addsReports.bind fun _ => object.addsReports.bind fun _ => place.addsReports.bind fun _ => .pure _
  | .get object _ => exact object.addsReports.bind fun _ => .pure _
  | .set object _ _ _ value => exact value.addsReports.bind fun _ => object.addsReports.bind fun _ => .pure _
  | .call callee args =>
    exact callee.addsReports.bind fun _ => (Expr.addsReportsList args).bind fun _ => .pure _
  | .block _ params body =>
    have hbody := (addsReports_declareParams params).bind fun _ => Stmt.addsReportsList body
    exact hbody.inScope.bind fun _ => .pure _

theorem Expr.addsReportsList (l : List Expr) : AddsReports (Expr.resolveList l) := by
  match l with
  | [] => exact .pure _
  | e :: rest => exact e.addsReports.bind fun _ => (Expr.addsReportsList rest).bind fun _ => .pure _

theorem Expr.addsReportsOption (o : Option Expr) : AddsReports (Expr.resolveOption o) := by
  match o with
  | none => exact .pure _
  | some e => exact e.addsReports.bind fun _ => .pure _

theorem VarDecl.addsReportsProperties (className : String) (l : List VarDecl) :
    AddsReports (VarDecl.resolveProperties className l) := by
  match l with
  | [] => exact .pure _
  | ⟨_, _, init⟩ :: rest =>
    exact (AddsReports.updateClass _ _).bind fun _ => (Expr.addsReportsOption init).bind fun _ =>
      (VarDecl.addsReportsProperties className rest).bind fun _ => .pure _

theorem FunctionDecl.addsReports (d : FunctionDecl) : AddsReports d.resolve := by
  match d with
  | ⟨_, params, body, _⟩ =>
    have hbody := (addsReports_declareParams params).bind fun _ => Stmt.addsReportsList body
    exact hbody.inScope.bind fun _ => .pure _

theorem FunctionDecl.addsReportsList (l : List FunctionDecl) : AddsReports (FunctionDecl.resolveList l) := by
  match l with
  | [] => exact .pure _
  | d :: rest => exact d.addsReports.bind fun _ => (FunctionDecl.addsReportsList rest).bind fun _ => .pure _

theorem Stmt.addsReports (t : Stmt) : AddsReports t.resolve := by
  match t with
  | .block body => exact (Stmt.addsReportsList body).inScope.bind fun _ => .pure _
  | .branch condition yes no =>
    exact condition.addsReports.bind fun _ => yes.addsReports.bind fun _ =>
      (Stmt.addsReportsOption no).bind fun _ => .pure _
  | .loop condition body => exact condition.addsReports.bind fun _ => body.addsReports.bind fun _ => .pure _
  | .count init condition step body =>
    exact (Stmt.addsReportsOption init).bind fun _ => (Expr.addsReportsOption condition).bind fun _ =>
      (Expr.addsReportsOption step).bind fun _ => body.addsReports.bind fun _ => .pure _
  | .result value => exact (Expr.addsReportsOption value).bind fun _ => .pure _
  | .expr e => exact e.addsReports.bind fun _ => .pure _
  | .var ⟨_, name, init⟩ =>
    exact (AddsReports.declare name.text).bind fun _ =>
      ((Expr.addsReportsOption init).bind fun _ => .pure _).bind fun _ => .pure _
  | .function decl =>
    exact (AddsReports.declare decl.name.text).bind fun _ => decl.addsReports.bind fun _ => .pure _
  | .print value => exact value.addsReports.bind fun _ => .pure _
  | .classDef name superclass methods properties =>
    have hsuper : AddsReports (resolveSuperclass name superclass) := by
      cases superclass with
      | none => exact (AddsReports.updateClass _ _).bind fun _ => .pure _
      | some ref =>
        exact ((AddsReports.reference _ ref).map some).bind fun _ =>
          (AddsReports.updateClass _ _).bind fun _ => .pure _
    rw [Stmt.resolve_classDef]
    exact (AddsReports.declare name.text).bind fun _ => hsuper.bind fun _ =>
      (VarDecl.addsReportsProperties name.text properties).bind fun _ =>
      (AddsReports.updateClass _ _).bind fun _ => .pure _
  | .classImpl name methods =>
    have hmethods := fun members : List String =>
      (addsReports_declareAll ("self" :: "super" :: members)).bind fun _ => FunctionDecl.addsReportsList methods
    exact (AddsReports.updateClass name.text _).bind fun _ =>
      .onClasses (k := fun t => do
        let methods ← inScope do
          declareAll ("self" :: "super" :: t.members name.text)
          FunctionDecl.resolveList methods
        return Stmt.classImpl name methods) fun t => (hmethods (t.members name.text)).inScope.bind fun _ => .pure _
  | .typeDef _ _ => exact .pure _

private theorem Stmt.addsReportsList (l : List Stmt) : AddsReports (Stmt.resolveList l) := by
  match l with
  | [] => exact .pure _
  | t :: rest => exact t.addsReports.bind fun _ => (Stmt.addsReportsList rest).bind fun _ => .pure _

theorem Stmt.addsReportsOption (o : Option Stmt) : AddsReports (Stmt.resolveOption o) := by
  match o with
  | none => exact .pure _
  | some t => exact t.addsReports.bind fun _ => .pure _

end

/-- Two lists are gone through one after the other. -/
private theorem Stmt.resolveList_append (l more : List Stmt) (s : Scopes) :
    (Stmt.resolveList (l ++ more)).run s =
      ((Stmt.resolveList l).value s ++ (Stmt.resolveList more).value ((Stmt.resolveList l).next s),
        (Stmt.resolveList more).next ((Stmt.resolveList l).next s)) := by
  induction l generalizing s with
  | nil => rfl
  | cons t rest ih =>
    have hrest := ih (t.resolve.next s)
    exact congrArg (fun x : List Stmt × Scopes => (t.resolve.value s :: x.1, x.2)) hrest

/-- Going through two lists at once gives what going through them one by one gives; the reports are those of the
first list and then those of the second. -/
theorem resolveProgram_append (s : Scopes) (l more : List Stmt) :
    resolveProgram s (l ++ more) =
      let (first, s₁) := resolveProgram s l
      let (second, s₂) := resolveProgram s₁ more
      (first ++ second, s₂.withReports s₁.reports) := by
  let s₁ := (resolveProgram s l).2
  have hmore := Stmt.addsReportsList more { s₁ with reports := #[] } s₁.reports
  have hs₁ : ({ s₁ with reports := #[] } : Scopes).withReports s₁.reports = s₁ :=
    congrArg (Scopes.mk s₁.stack s₁.classes) Array.append_empty
  rw [hs₁] at hmore
  refine (Stmt.resolveList_append l more _).trans ?_
  change ((resolveProgram s l).1 ++ ((Stmt.resolveList more).run s₁).1, ((Stmt.resolveList more).run s₁).2) = _
  rw [hmore]
  rfl

end ObjScript
