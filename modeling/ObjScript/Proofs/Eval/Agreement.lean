import ObjScript.Proofs.Eval.Evaluation
import ObjScript.Proofs.Eval.Keeps
import ObjScript.Proofs.Eval.Watched

/-!
# Runs under a regime

Two evaluators agree under a regime if they do the same on all code of the regime and keep its invariant
(`Regime.Agree`).  An evaluator of one more level agrees with another if those of the parts do, constructor by
constructor.  Two consequences are drawn from this: a run that is stopped before the calls of exempt values keeps
the regime (`Regime.agree_guarded`), and a law that follows from the invariant holds at every node of a run
(`Regime.agree_watched`).
-/

namespace ObjScript

namespace Regime

variable {R : Regime} {i j : Interp} {s : Store} {env : Env} {p : Surroundings}

/-- A sound value.  What `super` stands for is the class that its name is bound to. -/
def GoodFor (R : Regime) (env : Env) (e : Expr) (s : Store) (v : Value) : Prop :=
  R.Good s v ∧ ∀ ref c, e = .superRef ref → v = .classRef c →
    s.lookup? (Run.refEnv env ref) ref.name.text = some (.value (.classRef c))

/-- The evaluators do the same on all code of the regime, and they keep its invariant. -/
structure Agree (R : Regime) (i j : Interp) : Prop where
  eval : ∀ {s env p e}, R.Follows s env p → (∀ a ∈ e.places p, R.ok a) →
    R.Keeps (R.GoodFor env e) s (i.eval env e) (j.eval env e)
  exec : ∀ {s env p t}, R.Follows s env p → (∀ a ∈ t.places p, R.ok a) →
    R.Keeps (fun s' r => ∀ v ∈ r, R.Good s' v) s (i.exec env t) (j.exec env t)

theorem Agree.eval_good (h : R.Agree i j) {e : Expr} (henv : R.Follows s env p) (hok : ∀ a ∈ e.places p, R.ok a) :
    R.Keeps R.Good s (i.eval env e) (j.eval env e) :=
  (h.eval henv hok).weaken fun _ _ _ _ hv => hv.1

variable [hR : R.Lawful]

private theorem Agree.zero : R.Agree (interp 0) (interp 0) :=
  ⟨fun _ _ => .throw _, fun _ _ => .throw _⟩

omit hR in
theorem isData_defaultValue (type : TypeExpr) : (Run.defaultValue type).IsData := by
  unfold Run.defaultValue
  split <;> trivial

section Parts

variable (h : R.Agree i j) (henv : R.Follows s env p)

include h henv

private theorem Agree.evalAll {l : List Expr} (hok : ∀ a ∈ Expr.placesList l p, R.ok a) :
    R.Keeps (fun s' vs => ∀ v ∈ vs, R.Good s' v) s (Run.evalAll i env l) (Run.evalAll j env l) := by
  induction l generalizing s with
  | nil => exact .pure (List.forall_mem_nil _)
  | cons e rest ih =>
    obtain ⟨he, hrest⟩ := List.forall_mem_append.1 hok
    refine .ofInv fun hs => .bind (h.eval_good henv he) fun s₁ v hs₁ hafter hv => ?_
    refine .bind (ih (henv.mono hs hafter) hrest) fun s₂ vs _ hafter' hvs => .pure ?_
    exact List.forall_mem_cons.2 ⟨hv.mono hs₁ hafter', hvs⟩

theorem Agree.execAll {l : List Stmt} (hok : ∀ a ∈ Stmt.placesList l p, R.ok a) :
    R.Keeps (fun s' r => ∀ v ∈ r, R.Good s' v) s (Run.execAll i env l) (Run.execAll j env l) := by
  induction l generalizing s with
  | nil => exact .pure nofun
  | cons t rest ih =>
    obtain ⟨ht, hrest⟩ := List.forall_mem_append.1 hok
    refine .ofInv fun hs => .bind (h.exec henv ht) fun s₁ r hs₁ hafter hr => ?_
    cases r with
    | some v => exact .pure hr
    | none => exact ih (henv.mono hs hafter) hrest

private theorem Agree.evalOption {e : Option Expr} (hok : ∀ a ∈ Expr.placesOption e p, R.ok a) :
    R.Keeps R.Good s (Run.evalOption i env e) (Run.evalOption j env e) := by
  cases e with
  | none => exact .pure trivial
  | some e => exact h.eval_good henv hok

private theorem Agree.holds {e : Option Expr} (hok : ∀ a ∈ Expr.placesOption e p, R.ok a) :
    R.Keeps (fun _ _ => True) s (Run.holds i env e) (Run.holds j env e) := by
  cases e with
  | none => exact .pure trivial
  | some e => exact .bind (h.eval_good henv hok) fun _ _ _ _ _ => .pure trivial

theorem Agree.evalProperties {l : List VarDecl} {b : Bindings Value} (hok : ∀ a ∈ VarDecl.placesList l p, R.ok a)
    (hb : b.All (R.Good s)) :
    R.Keeps (fun s' b => b.All (R.Good s')) s (Run.evalProperties i env l b) (Run.evalProperties j env l b) := by
  induction l generalizing s b with
  | nil => exact .pure hb
  | cons d rest ih =>
    obtain ⟨type, name, init⟩ := d
    obtain ⟨hinit, hrest⟩ := List.forall_mem_append.1 hok
    refine .ofInv fun hs => ?_
    have hnext : ∀ s₁ v, R.Inv s₁ → R.After s s₁ → R.Good s₁ v → R.Keeps (fun s' b => b.All (R.Good s')) s₁
        (Run.evalProperties i env rest (b.put name.text v)) (Run.evalProperties j env rest (b.put name.text v)) :=
      fun s₁ v _ hafter hv => ih (henv.mono hs hafter) hrest ((hb.mono fun _ hw => hw.mono hs hafter).put hv)
    cases init with
    | some e => exact .bind (h.eval_good henv hinit) hnext
    | none => exact hnext s _ hs (.refl s) (good_of_isData (isData_defaultValue type))

/-- One turn of a loop. -/
private theorem Agree.turn {condition step : Option Expr} {body : Stmt}
    (hc : ∀ a ∈ Expr.placesOption condition p, R.ok a)
    (hstep : ∀ a ∈ Expr.placesOption step p, R.ok a) (hbody : ∀ a ∈ body.places p, R.ok a) :
    R.Keeps (fun s' o => ∀ v, o = .done (some v) → R.Good s' v) s (Run.turn i env condition step body)
      (Run.turn j env condition step body) := by
  refine .ofInv fun hs => .bind (h.holds henv hc) fun s₁ b hs₁ hafter _ => ?_
  have henv₁ := henv.mono hs hafter
  cases b with
  | false => exact .pure nofun
  | true =>
    refine .bind (h.exec henv₁ hbody) fun s₂ r hs₂ hafter' hr => ?_
    cases r with
    | some v => exact .pure fun w hw => hr w (by cases hw; rfl)
    | none =>
      exact .bind (h.evalOption (henv₁.mono hs₁ hafter') hstep) fun _ _ _ _ _ => .pure nofun

private theorem Agree.loop {condition step : Option Expr} {body : Stmt}
    (hc : ∀ a ∈ Expr.placesOption condition p, R.ok a)
    (hstep : ∀ a ∈ Expr.placesOption step p, R.ok a) (hbody : ∀ a ∈ body.places p, R.ok a) (n : Nat) :
    R.Keeps (fun s' r => ∀ v ∈ r, R.Good s' v) s (Run.loop (Run.turn i env condition step body) n)
      (Run.loop (Run.turn j env condition step body) n) := by
  induction n generalizing s with
  | zero => exact .throw _
  | succ n ih =>
    refine .ofInv fun hs => .bind (h.turn henv hc hstep hbody) fun s₁ o hs₁ hafter ho => ?_
    cases o with
    | again => exact ih (henv.mono hs hafter)
    | done r => exact .pure fun v hv => ho v (by rw [hv])

end Parts

/-! ### Calls -/

private theorem Agree.invoke (h : R.Agree i j) {params : List Param} {body : List Stmt} {args : List Value}
    (hrun : R.Runnable s params body env) (hargs : ∀ v ∈ args, R.Good s v) :
    R.Keeps R.Good s (Run.invoke i params body env args) (Run.invoke j params body env args) := by
  obtain ⟨p, henv, hparams, hok⟩ := hrun
  have hmakes : R.Makes s ⟨Run.bindParams params args [], none⟩ none := by
    refine .plain fun x hx => ?_
    rcases (has_bindParams params args [] x).1 hx with hx | hx
    · exact hparams x hx
    · cases hx
  have hbindings : (Run.bindParams params args []).All (R.Good s) :=
    all_bindParams trivial params hargs Bindings.all_nil
  refine .ofInv fun hs => .bind (keeps_newFrame hmakes hbindings nofun) fun s₁ frame hs₁ hafter hopened => ?_
  refine .bind (h.execAll (hopened.scope (henv.mono hs hafter)) hok) fun s₂ r _ _ hr => .pure ?_
  cases r with
  | none => exact trivial
  | some v => exact hr v rfl

theorem Agree.call (h : R.Agree i j) {f : Value} {args : List Value} (hf : R.Good s f) (hexempt : ¬ R.exempt s f)
    (hargs : ∀ v ∈ args, R.Good s v) : R.Keeps R.Good s (Run.call i f args) (Run.call j f args) := by
  cases f with
  | function f => exact h.invoke (hf.resolve_left hexempt) hargs
  | block b => exact h.invoke (hf.resolve_left hexempt) hargs
  | native n => exact keeps_native hf args
  | classRef c => exact keeps_allocate hf
  | builtin b => exact keeps_builtin b
  | _ =>
    refine .bind (Q := fun _ _ => True) (.quiet (Run.quiet_debug _
      (.bind (Run.quiet_text _) fun _ _ => .pure trivial))
      fun _ _ => trivial) fun _ _ _ _ _ => .pure trivial

/-! ### Nodes -/

theorem keeps_read {ref : Ref} : R.Keeps R.Good s (Run.read env ref) (Run.read env ref) :=
  keeps_readName.weaken fun _ _ _ _ hv => hv.1

/-- The value that an assignment stores. -/
theorem keeps_assigned {old : Run Value} {op : AssignOp} {pos : Pos} {v : Value} (hold : R.Keeps R.Good s old old)
    (hv : R.Good s v) : R.Keeps R.Good s (Run.assigned op pos old v) (Run.assigned op pos old v) := by
  unfold Run.assigned
  split
  · exact .bind hold fun _ w _ _ _ => .quiet (Run.quiet_add w v pos) fun _ => good_of_isData
  · exact .pure hv

omit hR in
/-- An expression other than `super` itself. -/
private theorem Keeps.goodFor {e : Expr} {t u : Run Value} (h : R.Keeps R.Good s t u)
    (he : ∀ ref, e ≠ .superRef ref) :
    R.Keeps (R.GoodFor env e) s t u :=
  h.weaken fun _ _ _ _ hv => ⟨hv, fun ref _ h => absurd h (he ref)⟩

/-- The ways of calling do the same on sound values, and they keep the invariant. -/
def CallsAgree (R : Regime) (calls calls' : Value → List Value → Run Value) : Prop :=
  ∀ {s f args}, R.Good s f → (∀ v ∈ args, R.Good s v) → R.Keeps R.Good s (calls f args) (calls' f args)

section Constructs

variable (h : R.Agree i j) {calls calls' : Value → List Value → Run Value} (henv : R.Follows s env p)

include h henv

/-- The second operand may be left out. -/
private theorem Agree.logical {left right : Expr} {op : LogicOp}
    (hok : ∀ a ∈ (Expr.logical left op right).places p, R.ok a) :
    R.Keeps R.Good s (Run.evalCalling calls i env (.logical left op right))
      (Run.evalCalling calls' j env (.logical left op right)) := by
  obtain ⟨-, hparts⟩ := List.forall_mem_cons.1 hok
  obtain ⟨hleft, hright⟩ := List.forall_mem_append.1 hparts
  refine .ofInv fun hs => .bind (h.eval_good henv hleft) fun s₁ l _ hafter _ => ?_
  have hsecond : R.Keeps R.Good s₁ (do return .bool (← i.eval env right).isTrue)
      (do return .bool (← j.eval env right).isTrue) :=
    .bind (h.eval_good (henv.mono hs hafter) hright) fun _ _ _ _ _ => .pure trivial
  dsimp only
  generalize l.isTrue = b
  cases op with
  | or =>
    cases b with
    | true => exact .pure trivial
    | false => exact hsecond
  | and =>
    cases b with
    | true => exact hsecond
    | false => exact .pure trivial

private theorem Agree.assign {target : Ref} {op : AssignOp} {pos : Pos} {value : Expr}
    (hok : ∀ a ∈ (Expr.assign target op pos value).places p, R.ok a) :
    R.Keeps R.Good s (Run.evalCalling calls i env (.assign target op pos value))
      (Run.evalCalling calls' j env (.assign target op pos value)) := by
  obtain ⟨hhere, hvalue⟩ := List.forall_mem_cons.1 hok
  have hx : R.free target.name.text := hR.binds hhere _ List.mem_cons_self
  refine .ofInv fun hs => .bind (h.eval_good henv hvalue) fun s₁ v hs₁ hafter hv => ?_
  have henv₁ := henv.mono hs hafter
  refine .bind (keeps_assigned keeps_read hv) fun s₂ w hs₂ hafter' hw => ?_
  refine .bind (keeps_assign (henv₁.mono hs₁ hafter') hx hw) fun s₃ _ _ hafter'' _ => ?_
  exact .pure (hw.mono hs₂ hafter'')

/-- Only in an array is there an element to assign to. -/
private theorem Agree.setIndex {object place value : Expr} {op : AssignOp} {pos : Pos}
    (hok : ∀ a ∈ (Expr.setIndex object place op pos value).places p, R.ok a) :
    R.Keeps R.Good s (Run.evalCalling calls i env (.setIndex object place op pos value))
      (Run.evalCalling calls' j env (.setIndex object place op pos value)) := by
  obtain ⟨-, hparts⟩ := List.forall_mem_cons.1 hok
  obtain ⟨hvalue, hparts⟩ := List.forall_mem_append.1 hparts
  obtain ⟨hobject, hplace⟩ := List.forall_mem_append.1 hparts
  refine .ofInv fun hs => .bind (h.eval_good henv hobject) fun s₁ o hs₁ hafter _ => ?_
  have henv₁ := henv.mono hs hafter
  cases o with
  | array a =>
    refine .bind (h.eval_good henv₁ hplace) fun s₂ q hs₂ hafter₂ _ => ?_
    refine .bind (h.eval_good (henv₁.mono hs₁ hafter₂) hvalue) fun s₃ v hs₃ hafter₃ hv => ?_
    refine .bind (keeps_assigned (keeps_element (v := .array a) trivial q) hv) fun s₄ w hs₄ _ hw => ?_
    exact .bind (keeps_setElement hw) fun _ _ _ hafter₅ _ => .pure (hw.mono hs₄ hafter₅)
  | _ => exact .pure trivial

/-- Only in an object is there a property to assign to. -/
private theorem Agree.setMember {object value : Expr} {name : Name} {op : AssignOp} {pos : Pos}
    (hok : ∀ a ∈ (Expr.set object name op pos value).places p, R.ok a) :
    R.Keeps R.Good s (Run.evalCalling calls i env (.set object name op pos value))
      (Run.evalCalling calls' j env (.set object name op pos value)) := by
  obtain ⟨hhere, hparts⟩ := List.forall_mem_cons.1 hok
  obtain ⟨hvalue, hobject⟩ := List.forall_mem_append.1 hparts
  refine .ofInv fun hs => .bind (h.eval_good henv hobject) fun s₁ o hs₁ hafter ho => ?_
  cases o with
  | object k =>
    refine .bind (h.eval_good (henv.mono hs hafter) hvalue) fun s₂ v hs₂ hafter₂ hv => ?_
    have hk : k.index < s₂.instances.size := ho.mono hs₁ hafter₂
    refine .bind (keeps_assigned (keeps_instanceMember hk) hv) fun s₃ w hs₃ _ hw => ?_
    exact .bind (keeps_putProperty hw) fun _ _ _ hafter₄ _ => .pure (hw.mono hs₃ hafter₄)
  | _ => exact .pure trivial

end Constructs

/-- Evaluators agree on an expression if evaluators of the parts do. -/
private theorem Agree.evalCalling (h : R.Agree i j) {calls calls' : Value → List Value → Run Value}
    (hcalls : R.CallsAgree calls calls') {e : Expr} (henv : R.Follows s env p) (hok : ∀ a ∈ e.places p, R.ok a) :
    R.Keeps (R.GoodFor env e) s (Run.evalCalling calls i env e) (Run.evalCalling calls' j env e) := by
  refine .ofInv fun hs => ?_
  cases e with
  | literal value =>
    refine Keeps.goodFor (.pure ?_) nofun
    cases value <;> trivial
  | «variable» ref => exact Keeps.goodFor keeps_read nofun
  | selfRef ref => exact Keeps.goodFor keeps_read nofun
  | superRef ref =>
    refine keeps_readName.weaken fun s' v _ _ hv => ⟨hv.1, fun ref' c href hc => ?_⟩
    cases href
    subst hc
    obtain ⟨-, ⟨f, hf⟩ | ⟨rfl, hnull | hfound⟩⟩ := hv
    · cases hf
    · cases hnull
    · exact hfound
  | grouping inner =>
    obtain ⟨-, hinner⟩ := List.forall_mem_cons.1 hok
    exact Keeps.goodFor (h.eval_good henv hinner) nofun
  | unary op pos operand =>
    obtain ⟨-, hoperand⟩ := List.forall_mem_cons.1 hok
    refine Keeps.goodFor (.bind (h.eval_good henv hoperand) fun _ v _ _ _ => ?_) nofun
    exact .quiet (Run.quiet_unary op pos v) fun _ => good_of_isData
  | binary left op pos right =>
    obtain ⟨-, hparts⟩ := List.forall_mem_cons.1 hok
    obtain ⟨hleft, hright⟩ := List.forall_mem_append.1 hparts
    refine Keeps.goodFor (.bind (h.eval_good henv hleft) fun _ l _ hafter _ => ?_) nofun
    refine .bind (h.eval_good (henv.mono hs hafter) hright) fun _ r _ _ _ => ?_
    exact .quiet (Run.quiet_binary op pos l r) fun _ => good_of_isData
  | logical left op right => exact Keeps.goodFor (h.logical henv hok) nofun
  | ternary condition yes no =>
    obtain ⟨-, hparts⟩ := List.forall_mem_cons.1 hok
    obtain ⟨hcondition, hparts⟩ := List.forall_mem_append.1 hparts
    obtain ⟨hyes, hno⟩ := List.forall_mem_append.1 hparts
    refine Keeps.goodFor (.bind (h.eval_good henv hcondition) fun s₁ l _ hafter _ => ?_) nofun
    split
    · exact h.eval_good (henv.mono hs hafter) hyes
    · exact h.eval_good (henv.mono hs hafter) hno
  | assign target op pos value => exact Keeps.goodFor (h.assign henv hok) nofun
  | array items =>
    obtain ⟨-, hitems⟩ := List.forall_mem_cons.1 hok
    refine Keeps.goodFor (.bind (h.evalAll henv hitems) fun s₁ vs _ hafter hvs => ?_) nofun
    refine .bind (keeps_newArray fun v hv => ?_) fun _ _ _ _ _ => .pure trivial
    exact hvs v (List.mem_filter.1 (List.mem_toArray.1 hv)).1
  | index object place =>
    obtain ⟨-, hparts⟩ := List.forall_mem_cons.1 hok
    obtain ⟨hobject, hplace⟩ := List.forall_mem_append.1 hparts
    refine Keeps.goodFor (.bind (h.eval_good henv hobject) fun s₁ v hs₁ hafter hv => ?_) nofun
    refine .bind (h.eval_good (henv.mono hs hafter) hplace) fun s₂ q _ hafter' _ => ?_
    exact keeps_element (hv.mono hs₁ hafter') q
  | setIndex object place op pos value => exact Keeps.goodFor (h.setIndex henv hok) nofun
  | get object name =>
    obtain ⟨-, hobject⟩ := List.forall_mem_cons.1 hok
    have hplace : R.ok ⟨.expr object, p⟩ := hobject _ (Node.mem_places (.expr object) p)
    refine Keeps.goodFor (.bind (h.eval henv hobject) fun s₁ v _ hafter hv => ?_) nofun
    exact keeps_member (henv.mono hs hafter) hplace hv.1 hv.2
  | set object name op pos value => exact Keeps.goodFor (h.setMember henv hok) nofun
  | call callee args =>
    obtain ⟨-, hparts⟩ := List.forall_mem_cons.1 hok
    obtain ⟨hcallee, hargs⟩ := List.forall_mem_append.1 hparts
    refine Keeps.goodFor (.bind (h.eval_good henv hcallee) fun s₁ f hs₁ hafter hf => ?_) nofun
    refine .bind (h.evalAll (henv.mono hs hafter) hargs) fun s₂ vs _ hafter' hvs => ?_
    exact hcalls (hf.mono hs₁ hafter') hvs
  | block returns params body =>
    obtain ⟨hhere, hbody⟩ := List.forall_mem_cons.1 hok
    refine Keeps.goodFor (.bind (keeps_snapshot henv) fun s₁ copy _ _ hcopy => .pure ?_) nofun
    exact .inr ⟨p, hcopy, fun x hx => hR.binds hhere x hx, hbody⟩

/-- The classes above a new class are the line of a class, or there are none. -/
private theorem keeps_lineageOf (env : Env) (name : String) (superclass : Option Ref) :
    R.Keeps IsLineage s (Run.lineageOf env name superclass) (Run.lineageOf env name superclass) := by
  cases superclass with
  | none => exact .pure (.inl rfl)
  | some ref => exact .bind keeps_read fun _ _ _ _ hv => keeps_superclassOf hv

/-- A new class, once the classes above it are known. -/
private theorem Agree.defineClass (h : R.Agree i j) {name : Name} {superclass : Option Ref}
    {methods : List FunctionDecl}
    {properties : List VarDecl} {lineage : List ClassId} (henv : R.Follows s env p)
    (hhere : R.ok ⟨.stmt (.classDef name superclass methods properties), p⟩)
    (hok : ∀ a ∈ VarDecl.placesList properties p, R.ok a) (hl : IsLineage s lineage) :
    R.Keeps (fun _ _ => True) s (Run.defineClass i env name.text properties lineage)
      (Run.defineClass j env name.text properties lineage) := by
  have hx : R.free name.text := hR.binds hhere _ List.mem_cons_self
  refine .ofInv fun hs => ?_
  refine .bind (keeps_define (v := .null) henv (List.Subset.refl _) hx trivial) fun s₁ _ hs₁ hafter _ => ?_
  have henv₁ := henv.mono hs hafter
  refine .bind (h.evalProperties henv₁ hok Bindings.all_nil) fun s₂ initial _ hafter₂ hinitial => ?_
  exact keeps_makeClass (henv₁.mono hs₁ hafter₂) hhere ((hl.mono hafter).mono hafter₂) hinitial

/-- Evaluators agree on a statement if evaluators of the parts do. -/
private theorem Agree.execStmt (h : R.Agree i j) {t : Stmt} (henv : R.Follows s env p)
    (hok : ∀ a ∈ t.places p, R.ok a) :
    R.Keeps (fun s' r => ∀ v ∈ r, R.Good s' v) s (Run.execStmt i env t) (Run.execStmt j env t) := by
  refine .ofInv fun hs => ?_
  obtain ⟨hhere, hparts⟩ := List.forall_mem_cons.1 (by unfold Stmt.places at hok; exact hok)
  have hnone : ∀ s', ∀ v ∈ (none : Option Value), R.Good s' v := by simp
  cases t with
  | block body =>
    have hmakes : R.Makes s ⟨[], none⟩ none := .plain fun _ h => Bool.noConfusion h
    refine .bind (keeps_newFrame hmakes Bindings.all_nil (by simp)) fun s₁ frame _ hafter hopened => ?_
    exact h.execAll (hopened.scope (henv.mono hs hafter)) hparts
  | branch condition yes no =>
    obtain ⟨hcondition, hparts⟩ := List.forall_mem_append.1 hparts
    obtain ⟨hyes, hno⟩ := List.forall_mem_append.1 hparts
    refine .bind (h.eval_good henv hcondition) fun s₁ v _ hafter _ => ?_
    split
    · exact h.exec (henv.mono hs hafter) hyes
    · cases no with
      | some t => exact h.exec (henv.mono hs hafter) hno
      | none => exact .pure (hnone _)
  | loop condition body =>
    obtain ⟨hcondition, hbody⟩ := List.forall_mem_append.1 hparts
    have hstep : ∀ a ∈ Expr.placesOption none p, R.ok a := List.forall_mem_nil _
    exact h.loop henv (show ∀ a ∈ Expr.placesOption (some condition) p, R.ok a from hcondition) hstep hbody loopBound
  | count init condition step body =>
    obtain ⟨hinit, hparts⟩ := List.forall_mem_append.1 hparts
    obtain ⟨hcondition, hparts⟩ := List.forall_mem_append.1 hparts
    obtain ⟨hstep, hbody⟩ := List.forall_mem_append.1 hparts
    cases init with
    | none => exact h.loop henv hcondition hstep hbody loopBound
    | some t =>
      refine .bind (h.exec henv hinit) fun s₁ _ _ hafter _ => ?_
      exact h.loop (henv.mono hs hafter) hcondition hstep hbody loopBound
  | result value =>
    exact .bind (h.evalOption henv hparts) fun _ v _ _ hv => .pure fun w hw => Option.some.inj hw ▸ hv
  | expr e => exact .bind (h.eval_good henv hparts) fun _ _ _ _ _ => .pure (hnone _)
  | var decl =>
    obtain ⟨type, name, init⟩ := decl
    have hx : R.free name.text := hR.binds hhere _ List.mem_cons_self
    refine .bind (h.evalOption henv hparts) fun s₁ v _ hafter hv => ?_
    exact .bind (keeps_define (henv.mono hs hafter) (List.Subset.refl _) hx hv) fun _ _ _ _ _ => .pure (hnone _)
  | function decl =>
    obtain ⟨name, params, body, isStatic⟩ := decl
    obtain ⟨hx, hparams⟩ := List.forall_mem_cons.1 (hR.binds hhere)
    have hf : R.Good s (.function ⟨⟨name, params, body, isStatic⟩, env⟩) := .inr ⟨p, henv, hparams, hparts⟩
    exact .bind (keeps_define henv (List.Subset.refl _) hx hf) fun _ _ _ _ _ => .pure (hnone _)
  | print value =>
    refine .bind (h.eval_good henv hparts) fun s₁ v _ _ _ => ?_
    refine .quiet (P := fun r => r = none) ?_ fun r hr v hv => by rw [hr] at hv; cases hv
    cases v.isNull with
    | true => exact .pure rfl
    | false => exact .bind (Run.quiet_text v) fun _ _ => .bind (.modify fun _ => rfl) fun _ _ => .pure rfl
  | classDef name superclass methods properties =>
    obtain ⟨-, hproperties⟩ := List.forall_mem_append.1 hparts
    refine .bind (keeps_lineageOf env name.text superclass) fun s₁ lineage _ hafter hl => ?_
    exact .bind (h.defineClass (henv.mono hs hafter) hhere hproperties hl) fun _ _ _ _ _ => .pure (hnone _)
  | classImpl name methods => exact .bind (keeps_implement henv hok) fun _ _ _ _ _ => .pure (hnone _)
  | typeDef name type => exact .pure (hnone _)

/-! ### Whole runs -/

/-- Evaluators with another way of calling keep the regime if the calls do. -/
theorem agree_calling {calls : Nat → Interp → Value → List Value → Run Value}
    (hcalls : ∀ n, R.Agree (calling calls n) (calling calls n) →
      R.CallsAgree (calls n (calling calls n)) (calls n (calling calls n))) (n : Nat) :
    R.Agree (calling calls n) (calling calls n) := by
  induction n with
  | zero => exact .zero
  | succ n ih => exact ⟨ih.evalCalling (hcalls n ih), ih.execStmt⟩

/-- A run that is stopped before the calls of exempt values keeps the regime. -/
theorem agree_guarded {refuses : Value → Bool} (hrefuses : ∀ s v, R.exempt s v → refuses v = true) (stop : Stop)
    (n : Nat) : R.Agree (guarded refuses stop n) (guarded refuses stop n) := by
  refine agree_calling (fun n h s f args hf hargs => ?_) n
  split
  · exact .throw stop
  · next hrefused => exact h.call hf (fun hexempt => hrefused (hrefuses s f hexempt)) hargs

private theorem Agree.evalExpr (h : R.Agree i j) (hexempt : ∀ s v, ¬ R.exempt s v) {e : Expr}
    (henv : R.Follows s env p)
    (hok : ∀ a ∈ e.places p, R.ok a) :
    R.Keeps (R.GoodFor env e) s (Run.evalExpr i env e) (Run.evalExpr j env e) := by
  rw [← Run.evalCalling_call, ← Run.evalCalling_call]
  exact h.evalCalling (fun hf hargs => h.call hf (hexempt _ _) hargs) henv hok

/-- A run keeps the regime if nothing is exempt. -/
theorem agree_interp (hexempt : ∀ s v, ¬ R.exempt s v) (n : Nat) : R.Agree (interp n) (interp n) := by
  induction n with
  | zero => exact .zero
  | succ n ih => exact ⟨ih.evalExpr hexempt, ih.execStmt⟩

/-- A law that follows from the invariant holds at every node of a run. -/
theorem agree_watched (hexempt : ∀ s v, ¬ R.exempt s v) {law : Env → Node → Machine → Prop}
    (hlaw : ∀ {m : Machine} {env p node}, R.Inv m.store → R.Follows m.store env p → (∀ a ∈ node.places p, R.ok a) →
      law env node m)
    (stop : Stop) (n : Nat) : R.Agree (watched law stop n) (interp n) := by
  induction n with
  | zero => exact .zero
  | succ n ih =>
    -- where the law holds the demand does nothing
    have hdemand : ∀ {α : Type} {s env p node} {t : Run α}, R.Inv s → R.Follows s env p →
        (∀ a ∈ node.places p, R.ok a) → ∀ m : Machine, m.store = s →
          (Run.demand (law env node) stop >>= fun _ => t).result m = t.result m := by
      rintro α _ env p node t hs henv hok m rfl
      rw [Run.result_bind, Run.result_demand (hlaw hs henv hok)]
    refine ⟨fun {s env p e} henv hok => .ofInv fun hs => ?_, fun {s env p t} henv hok => .ofInv fun hs => ?_⟩
    · have hhere : ∀ a ∈ (Node.expr e).places p, R.ok a := hok
      exact (ih.evalExpr hexempt henv hok).congr (hdemand hs henv hhere) fun _ _ => rfl
    · have hhere : ∀ a ∈ (Node.stmt t).places p, R.ok a := hok
      exact (ih.execStmt henv hok).congr (hdemand hs henv hhere) fun _ _ => rfl

/-- A program. -/
theorem Agree.program (h : R.Agree i j) {l : List Stmt} (henv : R.Follows s env p)
    (hok : ∀ a ∈ Stmt.placesList l p, R.ok a) :
    R.Keeps (fun _ _ => True) s (Run.program i env l) (Run.program j env l) := by
  induction l generalizing s with
  | nil => exact .pure trivial
  | cons t rest ih =>
    obtain ⟨ht, hrest⟩ := List.forall_mem_append.1 hok
    refine .ofInv fun hs => .bind (h.exec henv ht) fun s₁ r _ hafter _ => ?_
    cases r with
    | some v => exact .throw _
    | none => exact ih (henv.mono hs hafter) hrest

end Regime

end ObjScript
