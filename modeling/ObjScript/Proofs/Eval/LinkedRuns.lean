import ObjScript.Proofs.Eval.Agreement
import ObjScript.Proofs.Eval.Linked

/-!
# Runs that keep the links

Watched evaluators agree with others if they do the same on every chain and the links are kept
(`LinkedStore.Agree`).  An evaluator of one more level agrees with another if those of the parts do, constructor by
constructor.  So a run keeps the links, and a law about what they grow to holds at every node of the run
(`LinkedStore.agree_watched`).
-/

namespace ObjScript

namespace LinkedStore

variable {i : Watch → Interp} {j : Interp} {w : LinkedStore} {env : Env}

/-- A statement that has returned gives a sound value. -/
def GoodResult (w : LinkedStore) (r : Option Value) : Prop :=
  ∀ v ∈ r, w.Good v

/-- The evaluators do the same on all chains, and the links are kept. -/
structure Agree (i : Watch → Interp) (j : Interp) : Prop where
  eval : ∀ {w : LinkedStore} {env : Env}, w.IsChain env → ∀ e, w.Keeps Good (fun y => (i y).eval env e) (j.eval env e)
  exec : ∀ {w : LinkedStore} {env : Env}, w.IsChain env → ∀ t,
    w.Keeps GoodResult (fun y => (i y).exec env t) (j.exec env t)

private theorem goodResult_none (w : LinkedStore) : w.GoodResult none := by
  simp [GoodResult]

private theorem goodResult_some {v : Value} (hv : w.Good v) : w.GoodResult (some v) :=
  fun _ h => Option.some.inj h ▸ hv

section Parts

variable (h : Agree i j) (henv : w.IsChain env)

include h henv

private theorem Agree.evalAll (l : List Expr) :
    w.Keeps (fun x vs => ∀ v ∈ vs, x.Good v) (fun y => Run.evalAll (i y) env l) (Run.evalAll j env l) := by
  induction l generalizing w with
  | nil => exact .pure (List.forall_mem_nil _)
  | cons e rest ih =>
    refine .bind (h.eval henv e) fun x v _ hg hv => ?_
    refine .bind (ih (henv.mono hg)) fun y vs _ hg' hvs => .pure ?_
    exact List.forall_mem_cons.2 ⟨hv.mono hg', hvs⟩

private theorem Agree.execAll (l : List Stmt) :
    w.Keeps GoodResult (fun y => Run.execAll (i y) env l) (Run.execAll j env l) := by
  induction l generalizing w with
  | nil => exact .pure w.goodResult_none
  | cons t rest ih =>
    refine .bind (h.exec henv t) fun x r _ hg hr => ?_
    cases r with
    | some v => exact .pure hr
    | none => exact ih (henv.mono hg)

private theorem Agree.evalOption (e : Option Expr) :
    w.Keeps Good (fun y => Run.evalOption (i y) env e) (Run.evalOption j env e) := by
  cases e with
  | none => exact .pure (good_of_isData trivial)
  | some e => exact h.eval henv e

private theorem Agree.holds (e : Option Expr) :
    w.Keeps (fun _ _ => True) (fun y => Run.holds (i y) env e) (Run.holds j env e) := by
  cases e with
  | none => exact .pure trivial
  | some e => exact .bind (h.eval henv e) fun _ _ _ _ _ => .pure trivial

private theorem Agree.evalProperties (l : List VarDecl) {b : Bindings Value} (hb : b.All w.Good) :
    w.Keeps (fun x b => b.All x.Good) (fun y => Run.evalProperties (i y) env l b) (Run.evalProperties j env l b) := by
  induction l generalizing w b with
  | nil => exact .pure hb
  | cons d rest ih =>
    obtain ⟨type, name, init⟩ := d
    cases init with
    | none => exact ih henv (hb.put (good_of_isData (Regime.isData_defaultValue type)))
    | some e =>
      refine .bind (h.eval henv e) fun x v _ hg hv => ?_
      exact ih (henv.mono hg) ((hb.mono fun _ hu => hu.mono hg).put hv)

/-- What a turn of a loop leads to is sound. -/
private theorem Agree.turn (condition step : Option Expr) (body : Stmt) :
    w.Keeps (fun x o => ∀ r, o = .done r → x.GoodResult r) (fun y => Run.turn (i y) env condition step body)
      (Run.turn j env condition step body) := by
  refine .bind (h.holds henv condition) fun x b _ hg _ => ?_
  have henv₁ := henv.mono hg
  cases b with
  | false =>
    have hdone : ∀ r, Run.Turn.done none = .done r → x.GoodResult r := by
      rintro r hr
      cases hr
      exact x.goodResult_none
    exact .pure hdone
  | true =>
    refine .bind (h.exec henv₁ body) fun y r _ hg' hr => ?_
    cases r with
    | some v =>
      have hdone : ∀ r, Run.Turn.done (some v) = .done r → y.GoodResult r := by
        rintro r hr'
        cases hr'
        exact hr
      exact .pure hdone
    | none => exact .bind (h.evalOption (henv₁.mono hg') step) fun _ _ _ _ _ => .pure nofun

private theorem Agree.loop (condition step : Option Expr) (body : Stmt) (n : Nat) :
    w.Keeps GoodResult (fun y => Run.loop (Run.turn (i y) env condition step body) n)
      (Run.loop (Run.turn j env condition step body) n) := by
  induction n generalizing w with
  | zero => exact .throw _
  | succ n ih =>
    refine .bind (h.turn henv condition step body) fun x o _ hg ho => ?_
    cases o with
    | again => exact ih (henv.mono hg)
    | done r => exact .pure (ho r rfl)

end Parts

/-! ### Calls -/

private theorem Agree.invoke (h : Agree i j) (henv : w.IsChain env) (params : List Param) (body : List Stmt)
    {args : List Value} (hargs : ∀ v ∈ args, w.Good v) :
    w.Keeps Good (fun y => Run.invoke (i y) params body env args) (Run.invoke j params body env args) := by
  have hb : (Run.bindParams params args []).All w.Good :=
    all_bindParams (good_of_isData trivial) params hargs Bindings.all_nil
  refine .bind (keeps_newFrame ⟨Run.bindParams params args [], none⟩ hb henv) fun x frame _ _ hchain => ?_
  refine .bind (h.execAll hchain body) fun y r _ _ hr => .pure ?_
  cases r with
  | none => exact good_of_isData trivial
  | some v => exact hr v rfl

private theorem Agree.call (h : Agree i j) {f : Value} {args : List Value} (hf : w.Good f)
    (hargs : ∀ v ∈ args, w.Good v) :
    w.Keeps Good (fun y => Run.call (i y) f args) (Run.call j f args) := by
  cases f with
  | function f => exact h.invoke hf.1 f.decl.params f.decl.body hargs
  | block b => exact h.invoke hf.1 b.params b.body hargs
  | native n => exact keeps_native n args
  | classRef c => exact keeps_allocate c
  | builtin b => exact keeps_builtin b
  | _ =>
    refine .bind (Q := fun _ _ => True) (.quiet (P := fun _ => True) ?_ fun _ _ => trivial)
      fun _ _ _ _ _ => .pure (good_of_isData trivial)
    exact Run.quiet_debug _ (.bind (Run.quiet_text _) fun _ _ => .pure trivial)

/-! ### Nodes -/

private theorem keeps_read {ref : Ref} : w.Keeps Good (fun _ => Run.read env ref) (Run.read env ref) :=
  keeps_readName

/-- The value that an assignment stores. -/
private theorem keeps_assigned {old : Run Value} (op : AssignOp) (pos : Pos) {v : Value}
    (hold : w.Keeps Good (fun _ => old) old)
    (hv : w.Good v) : w.Keeps Good (fun _ => Run.assigned op pos old v) (Run.assigned op pos old v) := by
  unfold Run.assigned
  split
  · exact .bind hold fun _ u _ _ _ => .quiet (Run.quiet_add u v pos) fun _ => good_of_isData
  · exact .pure hv

/-- Evaluators agree on an expression if evaluators of the parts do. -/
private theorem Agree.evalExpr (h : Agree i j) (henv : w.IsChain env) (e : Expr) :
    w.Keeps Good (fun y => Run.evalExpr (i y) env e) (Run.evalExpr j env e) := by
  cases e with
  | literal value =>
    refine .pure (good_of_isData ?_)
    cases value <;> trivial
  | «variable» ref => exact keeps_read
  | selfRef ref => exact keeps_read
  | superRef ref => exact keeps_read
  | grouping inner => exact h.eval henv inner
  | unary op pos operand =>
    refine .bind (h.eval henv operand) fun _ v _ _ _ => ?_
    exact .quiet (Run.quiet_unary op pos v) fun _ => good_of_isData
  | binary left op pos right =>
    refine .bind (h.eval henv left) fun x l _ hg _ => ?_
    refine .bind (h.eval (henv.mono hg) right) fun _ r _ _ _ => ?_
    exact .quiet (Run.quiet_binary op pos l r) fun _ => good_of_isData
  | logical left op right =>
    refine .bind (h.eval henv left) fun x l _ hg _ => ?_
    have hsecond : x.Keeps Good (fun y => do return .bool (← (i y).eval env right).isTrue)
        (do return .bool (← j.eval env right).isTrue) :=
      .bind (h.eval (henv.mono hg) right) fun _ _ _ _ _ => .pure (good_of_isData trivial)
    generalize l.isTrue = b
    cases op with
    | or =>
      cases b with
      | true => exact .pure (good_of_isData trivial)
      | false => exact hsecond
    | and =>
      cases b with
      | true => exact hsecond
      | false => exact .pure (good_of_isData trivial)
  | ternary condition yes no =>
    refine .bind (h.eval henv condition) fun x v _ hg _ => ?_
    split
    · exact h.eval (henv.mono hg) yes
    · exact h.eval (henv.mono hg) no
  | assign target op pos value =>
    refine .bind (h.eval henv value) fun _ v _ _ hv => ?_
    refine .bind (keeps_assigned op pos keeps_read hv) fun _ u _ _ hu => ?_
    exact .bind (keeps_assign hu) fun _ _ _ hg _ => .pure (hu.mono hg)
  | array items =>
    refine .bind (h.evalAll henv items) fun x vs _ _ hvs => ?_
    refine .bind (keeps_newArray fun v hv => ?_) fun _ a _ _ _ => .pure (good_of_isData (v := .array a) trivial)
    exact hvs v (List.mem_filter.1 (List.mem_toArray.1 hv)).1
  | index object place =>
    refine .bind (h.eval henv object) fun x v _ hg _ => ?_
    exact .bind (h.eval (henv.mono hg) place) fun _ p _ _ _ => keeps_element v p
  | setIndex object place op pos value =>
    refine .bind (h.eval henv object) fun x o _ hg _ => ?_
    have henv₁ := henv.mono hg
    cases o with
    | array a =>
      refine .bind (h.eval henv₁ place) fun y p _ hg' _ => ?_
      refine .bind (h.eval (henv₁.mono hg') value) fun _ v _ _ hv => ?_
      refine .bind (keeps_assigned op pos (keeps_element (.array a) p) hv) fun _ u _ _ hu => ?_
      exact .bind (keeps_setElement hu) fun _ _ _ hg'' _ => .pure (hu.mono hg'')
    | _ => exact .pure (good_of_isData trivial)
  | get object name => exact .bind (h.eval henv object) fun _ _ _ _ hv => keeps_member hv
  | set object name op pos value =>
    refine .bind (h.eval henv object) fun x o _ hg _ => ?_
    cases o with
    | object k =>
      refine .bind (h.eval (henv.mono hg) value) fun _ v _ _ hv => ?_
      refine .bind (keeps_assigned op pos keeps_instanceMember hv) fun _ u _ _ hu => ?_
      exact .bind (keeps_putProperty hu) fun _ _ _ hg' _ => .pure (hu.mono hg')
    | _ => exact .pure (good_of_isData trivial)
  | call callee args =>
    refine .bind (h.eval henv callee) fun x f _ hg hf => ?_
    exact .bind (h.evalAll (henv.mono hg) args) fun _ vs _ hg' hvs => h.call (hf.mono hg') hvs
  | block returns params body =>
    exact .bind (keeps_snapshot henv) fun _ _ _ _ hcopy => .pure (good_block hcopy)

/-- The classes above a new class are the line of a class, or there are none. -/
private theorem keeps_lineageOf (env : Env) (name : String) (superclass : Option Ref) :
    w.Keeps IsLineage (fun _ => Run.lineageOf env name superclass) (Run.lineageOf env name superclass) := by
  cases superclass with
  | none => exact .pure (.inl rfl)
  | some ref => exact .bind keeps_read fun _ _ _ _ hv => keeps_superclassOf hv

/-- A new class, once the classes above it are known. -/
private theorem Agree.defineClass (h : Agree i j) (henv : w.IsChain env) (name : String) (properties : List VarDecl)
    {lineage : List ClassId} (hl : w.IsLineage lineage) :
    w.Keeps (fun _ _ => True) (fun y => Run.defineClass (i y) env name properties lineage)
      (Run.defineClass j env name properties lineage) := by
  have hnull : w.Good .null := good_of_isData trivial
  refine .bind (keeps_define hnull) fun x _ _ hg _ => ?_
  refine .bind (h.evalProperties (henv.mono hg) properties Bindings.all_nil) fun y initial _ hg' hinitial => ?_
  exact keeps_makeClass ((hl.mono hg).mono hg') hinitial

/-- Evaluators agree on a statement if evaluators of the parts do. -/
private theorem Agree.execStmt (h : Agree i j) (henv : w.IsChain env) (t : Stmt) :
    w.Keeps GoodResult (fun y => Run.execStmt (i y) env t) (Run.execStmt j env t) := by
  cases t with
  | block body =>
    refine .bind (keeps_newFrame ⟨[], none⟩ Bindings.all_nil henv) fun x frame _ _ hchain => ?_
    exact h.execAll hchain body
  | branch condition yes no =>
    refine .bind (h.eval henv condition) fun x v _ hg _ => ?_
    split
    · exact h.exec (henv.mono hg) yes
    · cases no with
      | some t => exact h.exec (henv.mono hg) t
      | none => exact .pure x.goodResult_none
  | loop condition body => exact h.loop henv (some condition) none body loopBound
  | count init condition step body =>
    cases init with
    | none => exact h.loop henv condition step body loopBound
    | some t =>
      refine .bind (h.exec henv t) fun x _ _ hg _ => ?_
      exact h.loop (henv.mono hg) condition step body loopBound
  | result value => exact .bind (h.evalOption henv value) fun _ _ _ _ hv => .pure (goodResult_some hv)
  | expr e => exact .bind (h.eval henv e) fun x _ _ _ _ => .pure x.goodResult_none
  | var decl =>
    obtain ⟨type, name, init⟩ := decl
    refine .bind (h.evalOption henv init) fun _ v _ _ hv => ?_
    exact .bind (keeps_define hv) fun x _ _ _ _ => .pure x.goodResult_none
  | function decl =>
    have hf : w.Good (.function ⟨decl, env⟩) := good_function henv
    exact .bind (keeps_define hf) fun x _ _ _ _ => .pure x.goodResult_none
  | print value =>
    refine .bind (h.eval henv value) fun x v _ _ _ => ?_
    refine .quiet (P := fun r => r = none) ?_ fun r hr => hr ▸ x.goodResult_none
    cases v.isNull with
    | true => exact .pure rfl
    | false => exact .bind (Run.quiet_text v) fun _ _ => .bind (.modify fun _ => rfl) fun _ _ => .pure rfl
  | classDef name superclass methods properties =>
    refine .bind (keeps_lineageOf env name.text superclass) fun x lineage _ hg hl => ?_
    exact .bind (h.defineClass (henv.mono hg) name.text properties hl) fun y _ _ _ _ => .pure y.goodResult_none
  | classImpl name methods => exact .bind (keeps_implement henv) fun x _ _ _ _ => .pure x.goodResult_none
  | typeDef name type => exact .pure w.goodResult_none

/-! ### Whole runs -/

private theorem Agree.zero : Agree (fun _ => interp 0) (interp 0) :=
  ⟨fun _ _ => .throw _, fun _ _ => .throw _⟩

/-- A law of all chains of linked stores and of whatever their links grow to holds at every node of a run. -/
theorem agree_watched {law : LinkedStore → Env → Node → Machine → Prop}
    (hlaw : ∀ (w y : LinkedStore) (env : Env) (node : Node) (m : Machine), w.Sound → w.IsChain env →
      m.store = w.store → y.Sound → w.Grows y → law y env node m)
    (n : Nat) : Agree (fun y => watched (law y.final) y.stop n) (interp n) := by
  induction n with
  | zero => exact .zero
  | succ n ih =>
    -- where the law holds the demand does nothing
    have hdemand : ∀ {α : Type} {w : LinkedStore} {env : Env} {node : Node} {t : Watch → Run α}, w.Sound →
        w.IsChain env → ∀ y : Watch, w.Grows y.final → ∀ m : Machine, m.store = w.store →
          (Run.demand (law y.final env node) y.stop >>= fun _ => t y).result m = (t y).result m := by
      intro α w env node t hw henv y hy m hm
      rw [Run.result_bind, Run.result_demand (hlaw w y.final env node m hw henv hm y.sound hy)]
    constructor
    · exact fun henv e => .ofSound fun hw => (ih.evalExpr henv e).congr (hdemand hw henv) fun _ _ => rfl
    · exact fun henv t => .ofSound fun hw => (ih.execStmt henv t).congr (hdemand hw henv) fun _ _ => rfl

/-- A program. -/
theorem Agree.program (h : Agree i j) (henv : w.IsChain env) (l : List Stmt) :
    w.Keeps (fun _ _ => True) (fun y => Run.program (i y) env l) (Run.program j env l) := by
  induction l generalizing w with
  | nil => exact .pure trivial
  | cons t rest ih =>
    refine .bind (h.exec henv t) fun x r _ hg _ => ?_
    cases r with
    | some v => exact .throw _
    | none => exact ih (henv.mono hg)

end LinkedStore

end ObjScript
