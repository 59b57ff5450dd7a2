import ObjScript.Proofs.Eval.Watched
import ObjScript.Proofs.Scope.Reports

/-!
# Running a program in pieces

A list of statements can be cut in two and run piece by piece.  If nothing stops the first piece, then both
ways end in the same state.  If something does, then nothing of the second piece is run: the machine is the
one that the first piece leaves (`Session.run_append`).
-/

namespace ObjScript

/-- Two lists of statements are executed one after the other. -/
private theorem Run.program_append (i : Interp) (env : Env) (first second : List Stmt) :
    Run.program i env (first ++ second) = (do
      Run.program i env first
      Run.program i env second) := by
  induction first with
  | nil => exact (pure_bind () fun _ => Run.program i env second).symm
  | cons t rest ih =>
    rw [List.cons_append, Run.program, Run.program, bind_assoc]
    refine bind_congr fun r => ?_
    cases r with
    | some v => rfl
    | none => exact ih

/-- How a piece ends: it runs through, or something stops it. -/
def Session.outcome (s : Session) (stmts : List Stmt) : Except Stop Unit :=
  ((Run.program (interp depthLimit) Env.top (s.resolve stmts).1).result s.machine).1

/-- Statements run alike at once and in two pieces.  Where the first piece is stopped, the machine is left as the
first piece leaves it. -/
theorem Session.run_append (s : Session) (first second : List Stmt) :
    let whole := s.run (first ++ second)
    let before := s.run first
    let after := before.2.run second
    match s.outcome first with
    | .ok () => whole.1 = after.1 ∧ whole.2.machine = after.2.machine ∧
        whole.2.scopes = after.2.scopes.withReports before.2.scopes.reports
    | .error _ => whole.1 = before.1 ∧ whole.2.machine = before.2.machine := by
  intro whole before after
  let first' := (resolveProgram s.scopes first).1
  let second' := (resolveProgram (resolveProgram s.scopes first).2 second).1
  have hscopes := congrArg Prod.snd (resolveProgram_append s.scopes first second)
  have hwhole : (whole.1, whole.2.machine) = s.machine.interpret (first' ++ second') :=
    congrArg (fun x : List Stmt × Scopes => s.machine.interpret x.1) (resolveProgram_append s.scopes first second)
  have hbefore : (before.1, before.2.machine) = s.machine.interpret first' := rfl
  have hafter : (after.1, after.2.machine) = before.2.machine.interpret second' := rfl
  rw [← Machine.interpretWith_interp, Machine.interpretWith, Run.program_append, Run.result_bind] at hwhole
  rw [← Machine.interpretWith_interp, Machine.interpretWith] at hbefore hafter
  unfold Session.outcome
  change match ((Run.program (interp depthLimit) Env.top first').result s.machine).1 with
    | .ok () => _
    | .error _ => _
  cases hfirst : (Run.program (interp depthLimit) Env.top first').result s.machine with
  | mk r m =>
    rw [hfirst] at hwhole hbefore
    cases r with
    | error e =>
      obtain ⟨hresult, hmachine⟩ := Prod.mk.inj (hwhole.trans hbefore.symm)
      exact ⟨hresult, hmachine⟩
    | ok _ =>
      have hm : before.2.machine = m := congrArg Prod.snd hbefore
      rw [hm] at hafter
      obtain ⟨hresult, hmachine⟩ := Prod.mk.inj (hwhole.trans hafter.symm)
      exact ⟨hresult, hmachine, hscopes⟩

end ObjScript
