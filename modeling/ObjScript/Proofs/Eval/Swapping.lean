import ObjScript.Proofs.Eval.Watched

/-!
# Runs that swap their frames

Evaluation with the chain of frames as a part of the state instead of an argument: a block statement and a call put
their own chain in its place, and however they end, the old one is put back (`Swap.within`).

On every exit the chain is the one of before, and all else is as in a run that is given its chain
(`Standing.interpret_eq`).  So a step may read the chain from the state at any moment: it is always the one of the
node that is being evaluated.
-/

namespace ObjScript

/-- A machine and the chain of frames that it currently runs in. -/
structure Standing where
  machine : Machine
  env : Env

/-- A step of a run that finds its chain in the state. -/
abbrev Swap := ExceptT Stop (StateM Standing)

namespace Swap

variable {α β : Type}

/-- A step that has no part in the chain. -/
def plain (step : Run α) : Swap α :=
  ExceptT.mk (modifyGet fun c =>
    let (result, machine) := step.run.run c.machine
    (result, { c with machine := machine }))

/-- Takes a step in another chain and puts the old one back, whether or not the step is stopped. -/
def within (env : Env) (step : Swap α) : Swap α := do
  let old := (← get).env
  modify fun c => { c with env := env }
  try step finally modify fun c => { c with env := old }

/-- The chain is read from the state, and put back there after a step in another one. -/
instance instEffects : Effects Unit Swap where
  plain := plain
  binding := plain
  newFrame _ frame := plain (Run.onStore (Store.newFrame frame))
  snapshot env := plain (Run.onStore (Store.snapshot (some .globals) env))
  here _ step := do step (← get).env
  within env step := within env (step ())
  visit _ _ step := step

end Swap

/-- Evaluators that find their chain in the state. -/
abbrev Swapper := Evaluators Unit Swap

/-- Evaluators that find their chain in the state, for nodes nested at most `n` deep. -/
abbrev swapping (n : Nat) : Swapper :=
  evaluators n

namespace Swap

variable {α β : Type}

/-- The result of a step, and the state after it. -/
def result (step : Swap α) (c : Standing) : Except Stop α × Standing :=
  step.run.run c

private theorem result_bind (t : Swap α) (k : α → Swap β) (c : Standing) :
    (t >>= k).result c = match t.result c with
      | (.ok a, c') => (k a).result c'
      | (.error e, c') => (.error e, c') := by
  change ((t.run.run c).1 |> fun r => ((ExceptT.bindCont k r).run (t.run.run c).2)) = _
  unfold result
  generalize t.run.run c = x
  obtain ⟨r, c'⟩ := x
  cases r <;> rfl

/-- What is to be done finally is done on every exit. -/
private theorem result_finally (t : Swap α) (f : Standing → Standing) (c : Standing) :
    Swap.result (try t finally modify f) c = ((t.result c).1, f (t.result c).2) := by
  have ht : t c = t.result c := rfl
  generalize t.result c = x at ht ⊢
  obtain ⟨r, c'⟩ := x
  cases r <;> (simp [result, ExceptT.run, StateT.run, bind, StateT.bind, Functor.map, ExceptT.map, ExceptT.mk,
    tryFinally, MonadFinally.tryFinally', ht]; rfl)

/-- Whatever happens inside, the chain of before is put back. -/
private theorem result_within (env : Env) (t : Swap α) (c : Standing) :
    (within env t).result c =
      ((t.result ⟨c.machine, env⟩).1, ⟨(t.result ⟨c.machine, env⟩).2.machine, c.env⟩) :=
  result_finally t (fun c' => { c' with env := c.env }) ⟨c.machine, env⟩

/-- Started in the chain, the step does to the machine what the other one does, and ends in this chain again,
stopped or not. -/
def Restores (env : Env) (t : Swap α) (u : Run α) : Prop :=
  ∀ m : Machine, t.result ⟨m, env⟩ = ((u.result m).1, ⟨(u.result m).2, env⟩)

namespace Restores

variable {env : Env}

private theorem pure (a : α) : Restores env (pure a) (pure a) :=
  fun _ => rfl

private theorem throw (e : Stop) : Restores env (throw e : Swap α) (throw e) :=
  fun _ => rfl

private theorem plain (u : Run α) : Restores env (plain u) u :=
  fun _ => rfl

private theorem bind {t : Swap α} {u : Run α} {k : α → Swap β} {l : α → Run β} (ht : Restores env t u)
    (hk : ∀ a, Restores env (k a) (l a)) : Restores env (t >>= k) (u >>= l) := by
  intro m
  rw [result_bind, Run.result_bind, ht m]
  generalize u.result m = x
  obtain ⟨r, m'⟩ := x
  cases r with
  | error e => rfl
  | ok a => exact hk a m'

/-- A step that reads the chain. -/
private theorem here {k : Env → Swap α} {l : Env → Run α} (hk : Restores env (k env) (l env)) :
    Restores env (Effects.here () k) (Effects.here env l) :=
  fun m => hk m

/-- A step that is taken in another chain. -/
private theorem within {inner : Env} {t : Swap α} {u : Run α} (ht : Restores inner t u) :
    Restores env (Swap.within inner t) u := by
  intro m
  rw [result_within, ht m]

end Restores

end Swap

/-- In every chain the evaluators do what the others do that are given it. -/
structure Swapper.Restores (i : Swapper) (j : Interp) : Prop where
  eval : ∀ env e, Swap.Restores env (i.eval () e) (j.eval env e)
  exec : ∀ env t, Swap.Restores env (i.exec () t) (j.exec env t)

namespace Swap

section Parts

variable {i : Swapper} {j : Interp} (h : i.Restores j) (env : Env)

private theorem restores_loop {t : Swap Run.Turn} {u : Run Run.Turn} (ht : Restores env t u) (n : Nat) :
    Restores env (Run.loop t n) (Run.loop u n) := by
  -- on the turns that are left: each one ends in the chain in which the next one starts
  induction n with
  | zero => exact .throw _
  | succ n ih =>
    apply ht.bind
    intro r
    cases r with
    | again => exact ih
    | done result => exact .pure result

private theorem restores_read (ref : Ref) : Restores env (Run.reading () ref) (Run.reading env ref) :=
  .here (.plain _)

private theorem restores_assigned (op : AssignOp) (pos : Pos) {old : Swap Value} {old' : Run Value}
    (hold : Restores env old old') (v : Value) :
    Restores env (Run.assigned op pos old v) (Run.assigned op pos old' v) := by
  unfold Run.assigned
  split
  · apply hold.bind
    intro w
    exact .plain _
  · exact .pure v

include h

private theorem restores_evalAll (es : List Expr) : Restores env (Run.evalAll i () es) (Run.evalAll j env es) := by
  induction es with
  | nil => exact .pure _
  | cons e rest ih =>
    apply (h.eval env e).bind
    intro v
    apply ih.bind
    intro vs
    exact .pure _

private theorem restores_execAll (ts : List Stmt) : Restores env (Run.execAll i () ts) (Run.execAll j env ts) := by
  induction ts with
  | nil => exact .pure _
  | cons t rest ih =>
    apply (h.exec env t).bind
    intro r
    cases r with
    | some v => exact .pure _
    | none => exact ih

private theorem restores_evalOption (o : Option Expr) :
    Restores env (Run.evalOption i () o) (Run.evalOption j env o) := by
  cases o with
  | none => exact .pure _
  | some e => exact h.eval env e

private theorem restores_holds (o : Option Expr) : Restores env (Run.holds i () o) (Run.holds j env o) := by
  cases o with
  | none => exact .pure _
  | some e =>
    apply (h.eval env e).bind
    intro v
    exact .pure _

private theorem restores_turn (condition step : Option Expr) (body : Stmt) :
    Restores env (Run.turn i () condition step body) (Run.turn j env condition step body) := by
  apply (restores_holds h env condition).bind
  intro b
  split
  · apply (h.exec env body).bind
    intro r
    cases r with
    | some v => exact .pure _
    | none =>
      apply (restores_evalOption h env step).bind
      intro _
      exact .pure _
  · exact .pure _

private theorem restores_evalProperties (ds : List VarDecl) (b : Bindings Value) :
    Restores env (Run.evalProperties i () ds b) (Run.evalProperties j env ds b) := by
  induction ds generalizing b with
  | nil => exact .pure b
  | cons d rest ih =>
    obtain ⟨type, name, init⟩ := d
    cases init with
    | none => exact ih _
    | some e =>
      apply (h.eval env e).bind
      intro v
      exact ih _

/-- The body runs in the chain of the callee, and the caller is back in its own. -/
private theorem restores_invoke (params : List Param) (body : List Stmt) (callee : Env) (args : List Value) :
    Restores env (Run.invoke i params body callee args) (Run.invoke j params body callee args) := by
  apply Restores.bind (.plain _)
  intro frame
  apply Restores.bind (.within (restores_execAll h (frame :: callee) body))
  intro r
  exact .pure _

private theorem restores_call (callee : Value) (args : List Value) :
    Restores env (Run.call i callee args) (Run.call j callee args) := by
  cases callee with
  | function f => exact restores_invoke h env _ _ _ args
  | block b => exact restores_invoke h env _ _ _ args
  | native n => exact .plain _
  | classRef c => exact .plain (Run.onStore (Store.allocate c))
  | builtin b => exact .plain _
  | _ =>
    apply Restores.bind (.plain _)
    intro _
    exact .pure _

omit h in
private theorem restores_member (chain : Env) (viaSuper : Bool) (v : Value) (name : String) :
    Restores env (Run.member chain viaSuper v name) (Run.member chain viaSuper v name) := by
  cases v with
  | object i => exact .plain (Run.instanceMember i name)
  | classRef c =>
    cases viaSuper with
    | false => exact .plain (Run.classMember c name)
    | true =>
      apply Restores.bind (.plain _)
      intro found
      apply Restores.bind (.plain _)
      intro self
      exact .plain (Run.ofSuper found c name self)
  | _ => exact .pure _

omit h in
private theorem restores_implement (chain : Env) (name : String) (methods : List FunctionDecl) :
    Restores env (Run.implement chain name methods) (Run.implement chain name methods) := by
  apply Restores.bind (.plain _)
  intro v
  apply Restores.bind (.plain _)
  intro found
  split
  · exact .plain _
  · exact .pure ()

/-- In two of the four cases the right side decides. -/
private theorem restores_logical (left right : Expr) (op : LogicOp) :
    Restores env (Run.evalExpr i () (.logical left op right)) (Run.evalExpr j env (.logical left op right)) := by
  have hright : Restores env (do return Value.bool (← i.eval () right).isTrue)
      (do return .bool (← j.eval env right).isTrue) := by
    apply (h.eval env right).bind
    intro r
    exact .pure _
  apply (h.eval env left).bind
  intro l
  dsimp only
  generalize l.isTrue = b
  cases op <;> cases b
  · exact hright
  · exact .pure _
  · exact .pure _
  · exact hright

/-- Only in an array is there an element to assign to. -/
private theorem restores_setIndex (object place value : Expr) (op : AssignOp) (pos : Pos) :
    Restores env (Run.evalExpr i () (.setIndex object place op pos value))
      (Run.evalExpr j env (.setIndex object place op pos value)) := by
  apply (h.eval env object).bind
  intro o
  cases o with
  | array a =>
    apply (h.eval env place).bind
    intro p
    apply (h.eval env value).bind
    intro v
    apply (restores_assigned env op pos (.plain _) v).bind
    intro w
    apply Restores.bind (.plain _)
    intro _
    exact .pure w
  | _ => exact .pure _

/-- Only in an object is there a property to assign to. -/
private theorem restores_setMember (object value : Expr) (name : Name) (op : AssignOp) (pos : Pos) :
    Restores env (Run.evalExpr i () (.set object name op pos value))
      (Run.evalExpr j env (.set object name op pos value)) := by
  apply (h.eval env object).bind
  intro o
  cases o with
  | object id =>
    apply (h.eval env value).bind
    intro v
    apply (restores_assigned env op pos (.plain _) v).bind
    intro w
    apply Restores.bind (.plain _)
    intro _
    exact .pure w
  | _ => exact .pure _

private theorem restores_evalExpr (e : Expr) : Restores env (Run.evalExpr i () e) (Run.evalExpr j env e) := by
  cases e with
  | literal value => exact .pure _
  | «variable» ref => exact restores_read env ref
  | selfRef ref => exact restores_read env ref
  | superRef ref => exact restores_read env ref
  | grouping inner => exact h.eval env inner
  | unary op pos operand =>
    apply (h.eval env operand).bind
    intro v
    exact .plain _
  | binary left op pos right =>
    apply (h.eval env left).bind
    intro l
    apply (h.eval env right).bind
    intro r
    exact .plain _
  | logical left op right => exact restores_logical h env left right op
  | ternary condition yes no =>
    apply (h.eval env condition).bind
    intro c
    split
    · exact h.eval env yes
    · exact h.eval env no
  | assign target op pos value =>
    apply (h.eval env value).bind
    intro v
    apply (restores_assigned env op pos (restores_read env target) v).bind
    intro w
    apply Restores.bind (.here (.plain _))
    intro _
    exact .pure w
  | array items =>
    apply (restores_evalAll h env items).bind
    intro vs
    apply Restores.bind (.plain _)
    intro a
    exact .pure _
  | index object place =>
    apply (h.eval env object).bind
    intro v
    apply (h.eval env place).bind
    intro p
    exact .plain _
  | setIndex object place op pos value => exact restores_setIndex h env object place value op pos
  | get object name =>
    apply (h.eval env object).bind
    intro v
    exact .here (restores_member env env (Run.isSuper object) v name.text)
  | set object name op pos value => exact restores_setMember h env object value name op pos
  | call callee args =>
    apply (h.eval env callee).bind
    intro f
    apply (restores_evalAll h env args).bind
    intro vs
    exact restores_call h env f vs
  | block returns params body =>
    apply Restores.here
    apply Restores.bind (.plain _)
    intro captured
    exact .pure _

omit h in
private theorem restores_lineageOf (name : String) (superclass : Option Ref) :
    Restores env (Run.lineageOf () name superclass) (Run.lineageOf env name superclass) := by
  cases superclass with
  | none => exact .pure []
  | some ref =>
    apply (restores_read env ref).bind
    intro v
    exact .plain _

private theorem restores_defineClass (name : String) (properties : List VarDecl) (lineage : List ClassId) :
    Restores env (Run.defineClass i () name properties lineage) (Run.defineClass j env name properties lineage) := by
  apply Restores.bind (.here (.plain _))
  intro _
  apply (restores_evalProperties h env properties []).bind
  intro initial
  exact .here (.plain _)

private theorem restores_execStmt (t : Stmt) : Restores env (Run.execStmt i () t) (Run.execStmt j env t) := by
  cases t with
  | block body =>
    apply Restores.here
    apply Restores.bind (.plain _)
    intro frame
    exact .within (restores_execAll h (frame :: env) body)
  | branch condition yes no =>
    apply (h.eval env condition).bind
    intro c
    split
    · exact h.exec env yes
    · cases no with
      | none => exact .pure _
      | some no => exact h.exec env no
  | loop condition body => exact restores_loop env (restores_turn h env (some condition) none body) loopBound
  | count init condition step body =>
    have hloop := restores_loop env (restores_turn h env condition step body) loopBound
    cases init with
    | none => exact hloop
    | some s =>
      apply (h.exec env s).bind
      intro _
      exact hloop
  | result value =>
    apply (restores_evalOption h env value).bind
    intro v
    exact .pure _
  | expr e =>
    apply (h.eval env e).bind
    intro _
    exact .pure _
  | var decl =>
    obtain ⟨type, name, init⟩ := decl
    apply (restores_evalOption h env init).bind
    intro v
    apply Restores.bind (.here (.plain _))
    intro _
    exact .pure _
  | function decl =>
    apply Restores.bind (.here (.plain _))
    intro _
    exact .pure _
  | print value =>
    apply (h.eval env value).bind
    intro v
    split
    · apply Restores.bind (.plain _)
      intro line
      apply Restores.bind (.plain _)
      intro _
      exact .pure _
    · exact .pure _
  | classDef name superclass methods properties =>
    apply (restores_lineageOf env name.text superclass).bind
    intro lineage
    apply (restores_defineClass h env name.text properties lineage).bind
    intro _
    exact .pure _
  | classImpl name methods =>
    apply Restores.bind (.here (restores_implement env env name.text methods))
    intro _
    exact .pure _
  | typeDef name type => exact .pure _

private theorem restores_program (ts : List Stmt) : Restores env (Run.program i () ts) (Run.program j env ts) := by
  induction ts with
  | nil => exact .pure ()
  | cons t rest ih =>
    apply (h.exec env t).bind
    intro r
    cases r with
    | some v => exact .plain _
    | none => exact ih

end Parts

end Swap

private theorem swapping_restores (n : Nat) : (swapping n).Restores (interp n) := by
  induction n with
  | zero => exact ⟨fun _ _ => .plain (Run.fail .tooDeep), fun _ _ => .plain (Run.fail .tooDeep)⟩
  | succ n ih => exact ⟨Swap.restores_evalExpr ih, Swap.restores_execStmt ih⟩

namespace Standing

/-- How a program ends in the current chain, and what it leaves. -/
def ran (c : Standing) (stmts : List Stmt) : Except Stop Unit × Standing :=
  (Run.program (swapping depthLimit) () stmts).result c

/-- Runs a program in the current chain.  A failure stops it and is noted. -/
def interpret (c : Standing) (stmts : List Stmt) : Except Escape Unit × Standing :=
  match c.ran stmts with
  | (.ok (), c) => (.ok (), c)
  | (.error (.fault f), c) => (.ok (), { c with machine := c.machine.noteFault f })
  | (.error (.badNumeral b), c) => (.error (.badNumeral b), c)
  | (.error .unfinished, c) => (.error .unfinished, c)

/-- A program ends in the chain in which it was started, and does to the machine what it does where it is given its
chain. -/
theorem ran_eq (c : Standing) (stmts : List Stmt) :
    c.ran stmts = (((Run.program (interp depthLimit) c.env stmts).result c.machine).1,
      ⟨((Run.program (interp depthLimit) c.env stmts).result c.machine).2, c.env⟩) :=
  Swap.restores_program (swapping_restores depthLimit) c.env stmts c.machine

/-- So does the run with its failure noted. -/
theorem interpret_eq (c : Standing) (stmts : List Stmt) :
    c.interpret stmts =
      let (result, machine) := Machine.finish ((Run.program (interp depthLimit) c.env stmts).result c.machine)
      (result, ⟨machine, c.env⟩) := by
  unfold interpret
  rw [ran_eq]
  generalize (Run.program (interp depthLimit) c.env stmts).result c.machine = x
  obtain ⟨r, m⟩ := x
  cases r with
  | ok _ => rfl
  | error e => cases e <;> rfl

/-- A program runs through, fails, or is stopped by something that escapes. -/
theorem interpret_cases (c : Standing) (stmts : List Stmt) :
    ((c.ran stmts).1 = .ok () ∧ c.interpret stmts = (.ok (), (c.ran stmts).2)) ∨
    (∃ f, (c.ran stmts).1 = .error (.fault f) ∧
      c.interpret stmts = (.ok (), { (c.ran stmts).2 with machine := (c.ran stmts).2.machine.noteFault f })) ∨
    ∃ stop e, (c.ran stmts).1 = .error stop ∧ (∀ f, stop ≠ .fault f) ∧ c.interpret stmts =
      (.error e, (c.ran stmts).2) := by
  unfold interpret
  generalize c.ran stmts = x
  obtain ⟨r, c'⟩ := x
  cases r with
  | ok _ => exact .inl ⟨rfl, rfl⟩
  | error stop =>
    cases stop with
    | fault f => exact .inr (.inl ⟨f, rfl, rfl⟩)
    | badNumeral b => exact .inr (.inr ⟨_, _, rfl, nofun, rfl⟩)
    | unfinished => exact .inr (.inr ⟨_, _, rfl, nofun, rfl⟩)

end Standing

end ObjScript
