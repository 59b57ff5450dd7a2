import ObjScript.Proofs.Eval.Tame
import ObjScript.Proofs.Syntax.Nodes
import ObjScript.Session

/-!
# Runs that are watched

A guarded run stops instead of calling a value that is refused, and goes as any other run up to there
(`guarded`).  An audited run stops instead of a call that would make a change which is not allowed
(`audited`).  A watched run asks at every node whether a law holds and stops if it does not (`watched`).

A run keeps to the rule if it is no different from the plain one, whatever it would be stopped with.
-/

namespace ObjScript

namespace Run

/-- Evaluates an expression by evaluating its parts, with another way of calling. -/
def evalCalling (calls : Value → List Value → Run Value) (i : Interp) (env : Env) : Expr → Run Value
  | .call callee args => do
    let f ← i.eval env callee
    let vs ← evalAll i env args
    calls f vs
  | e => evalExpr i env e

theorem evalCalling_call (i : Interp) : evalCalling (call i) i = evalExpr i := by
  funext env e
  cases e <;> rfl

open Classical in
/-- Stops unless the law holds of the machine. -/
noncomputable def demand (law : Machine → Prop) (stop : Stop) : Run Unit := do
  if law (← get) then return () else throw stop

/-- Where the law holds nothing happens. -/
theorem result_demand {law : Machine → Prop} {m : Machine} (h : law m) (stop : Stop) :
    (demand law stop).result m = (.ok (), m) := by
  have hresult : (demand law stop).result m =
      Run.result (open Classical in if law m then pure () else throw stop) m := rfl
  rw [hresult, if_pos h]
  rfl

open Classical in
/-- Takes the step, or stops if the change that it makes is not allowed. -/
noncomputable def audit {α : Type} (allowed : Store → Store → Prop) (stop : Stop) (t : Run α) : Run α :=
  ExceptT.mk fun m => if allowed m.store (t.result m).2.store then t.result m else (.error stop, m)

theorem result_audit {α : Type} (allowed : Store → Store → Prop) (stop : Stop) (t : Run α) (m : Machine) :
    (allowed m.store (t.result m).2.store ∧ (audit allowed stop t).result m = t.result m) ∨
      (audit allowed stop t).result m = (.error stop, m) := by
  by_cases h : allowed m.store (t.result m).2.store
  · exact .inl ⟨h, if_pos h⟩
  · exact .inr (if_neg h)

end Run

/-- Evaluators with another way of calling.  It is told how deep nodes may still be nested, and the evaluators for
them. -/
def calling (calls : Nat → Interp → Value → List Value → Run Value) : Nat → Interp
  | 0 => interp 0
  | n + 1 =>
    { eval := Run.evalCalling (calls n (calling calls n)) (calling calls n)
      exec := Run.execStmt (calling calls n) }

/-- Evaluators that stop before the call of a refused value. -/
def guarded (refuses : Value → Bool) (stop : Stop) : Nat → Interp :=
  calling fun _ i f args => if refuses f then throw stop else Run.call i f args

/-- Evaluators that stop instead of a call of a suspect value that would make a change which is not allowed. -/
noncomputable def audited (suspects : Value → Bool) (allowed : Store → Store → Prop) (stop : Stop) : Nat → Interp :=
  calling fun n i f args =>
    if suspects f then Run.audit allowed stop (Run.call (interp n) f args) else Run.call i f args

/-- Evaluators that stop at a node where the law does not hold. -/
noncomputable def watched (law : Env → Node → Machine → Prop) (stop : Stop) : Nat → Interp
  | 0 => interp 0
  | n + 1 =>
    { eval := fun env e => do
        Run.demand (law env (.expr e)) stop
        Run.evalExpr (watched law stop n) env e
      exec := fun env t => do
        Run.demand (law env (.stmt t)) stop
        Run.execStmt (watched law stop n) env t }

/-- What the machine makes of the end of a program. -/
def Machine.finish : Except Stop Unit × Machine → Except Escape Unit × Machine
  | (.ok (), m) => (.ok (), m)
  | (.error (.fault f), m) => (.ok (), m.noteFault f)
  | (.error (.badNumeral b), m) => (.error (.badNumeral b), m)
  | (.error .unfinished, m) => (.error .unfinished, m)

/-- Runs a program at the top level with other evaluators. -/
def Machine.interpretWith (i : Interp) (m : Machine) (stmts : List Stmt) : Except Escape Unit × Machine :=
  Machine.finish ((Run.program i Env.top stmts).result m)

theorem Machine.interpretWith_interp (m : Machine) (stmts : List Stmt) :
    m.interpretWith (interp depthLimit) stmts = m.interpret stmts := by
  unfold Machine.interpretWith Machine.interpret Machine.finish Run.result
  split <;> simp_all

namespace Session

/-- Runs statements with other evaluators. -/
def runWith (i : Interp) (s : Session) (stmts : List Stmt) : Except Escape Unit × Session :=
  let (stmts, s) := s.resolve stmts
  let (result, machine) := s.machine.interpretWith i stmts
  (result, { s with machine := machine })

/-- Runs a piece with other evaluators. -/
def executeWith (i : Interp) (s : Session) (source : String) : Except Escape String × Session :=
  match s.parse source with
  | (.error b, s) => (.error (.badNumeral b), s)
  | (.ok stmts, s) =>
    let start := s.machine.printed.length
    match s.runWith i stmts with
    | (.error e, s) => (.error e, s)
    | (.ok (), s) => (.ok (outputFrom s.machine.printed start), s)

/-- Runs one piece after the other with other evaluators. -/
def executeAllWith (i : Interp) (s : Session) : List String → List (Except Escape String) × Session
  | [] => ([], s)
  | source :: rest =>
    let (result, s) := s.executeWith i source
    let (results, s) := s.executeAllWith i rest
    (result :: results, s)

end Session

end ObjScript
