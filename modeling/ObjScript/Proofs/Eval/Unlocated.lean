import ObjScript.Proofs.Eval.Recoded
import ObjScript.Proofs.Syntax.Unlocated

/-!
# Machines without their places

`unlocated` takes the places out of a store, of its values and of a failure.  A warning in the log is about an error
and names its place, so that only its level and its source are left; the messages for debugging never name a place.
-/

namespace ObjScript

/-- Trees without their places. -/
def Recoding.unlocated : Recoding where
  function := FunctionDecl.unlocated
  params := List.map Param.unlocated
  body := List.map Stmt.unlocated
  name_text d := by rw [d.unlocated_name, Name.unlocated_text]
  isStatic := FunctionDecl.unlocated_isStatic

/-- The value without its places. -/
abbrev Value.unlocated (v : Value) : Value :=
  v.recoded .unlocated

/-- The store without its places. -/
abbrev Store.unlocated (s : Store) : Store :=
  s.recoded .unlocated

/-- The failure without its place. -/
def Fault.unlocated : Fault → Fault
  | .type fault _ => .type fault .nowhere
  | f => f

/-- What ended a run, without its place. -/
def Stop.unlocated : Stop → Stop
  | .fault f => .fault f.unlocated
  | e => e

/-- The message of the log without the places that it names. -/
def LogRecord.unlocated (r : LogRecord) : LogRecord :=
  match r.level with
  | .debug => r
  | .warning => { r with message := "" }

/-- The log without the places that it names. -/
def Log.unlocated (log : Log) : Log :=
  { log with records := log.records.map LogRecord.unlocated }

/-- The machine without its places. -/
def Machine.unlocated (m : Machine) : Machine :=
  { m with
    store := m.store.unlocated
    log := m.log.unlocated
    lastFault := m.lastFault.map Fault.unlocated }

@[simp] theorem Fault.unlocated_kind (f : Fault) : f.unlocated.kind = f.kind := by
  cases f <;> rfl

@[simp] theorem Fault.unlocated_message (f : Fault) : f.unlocated.message = f.message := by
  cases f <;> rfl

@[simp] theorem LogRecord.unlocated_level (r : LogRecord) : r.unlocated.level = r.level := by
  obtain ⟨level, source, message⟩ := r
  cases level <;> rfl

theorem Log.unlocated_add (log : Log) (r : LogRecord) : log.unlocated.add r.unlocated = (log.add r).unlocated := by
  unfold add
  rw [r.unlocated_level]
  change (if log.keeps r.level = true then _ else _) = _
  split
  · exact congrArg (Log.mk log.threshold) Array.map_push.symm
  · rfl

/-- Noting a failure leaves nothing of its place behind but the place of the failure itself. -/
theorem Machine.unlocated_noteFault (m : Machine) (f : Fault) :
    (m.noteFault f).unlocated = { m.unlocated with
      lastFault := some f.unlocated
      log := m.unlocated.log.add ⟨.warning, .evaluator, ""⟩
      printed := m.unlocated.printed ++ failureMark } := by
  have hlog := m.log.unlocated_add ⟨.warning, .evaluator, "runtime error: " ++ f.text⟩
  exact congrArg (fun log => { m.unlocated with
    lastFault := some f.unlocated, log := log, printed := m.printed ++ failureMark }) hlog.symm

end ObjScript
