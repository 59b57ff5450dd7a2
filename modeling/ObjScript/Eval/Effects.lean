import ObjScript.Eval.Object
import ObjScript.Syntax

/-!
# The effects of evaluation

The evaluator is written once, for every monad that has these effects.  Programs run in `Run`, where a step is
given the chain of frames that it is taken in.  What is said about the frames of a run is said with other effects: a
run may keep notes about its frames and references, or keep its chain of frames in the state.
-/

namespace ObjScript

/-- The effects of evaluation in the steps `μ`, which are told by a `κ` where they are. -/
class Effects (κ : outParam Type) (μ : Type → Type) where
  /-- Takes a step that makes no frame. -/
  plain {α : Type} : Run α → μ α
  /-- Takes a step that makes a frame only to bind a method, which is then the value that it gives. -/
  binding : Run Value → μ Value
  /-- Makes a frame for a scope. -/
  newFrame : Opener → Frame → μ FrameId
  /-- Copies the frames of a chain up to the built-in names. -/
  snapshot : Env → μ Env
  /-- Goes on with the current chain of frames. -/
  here {α : Type} : κ → (Env → μ α) → μ α
  /-- Takes a step in another chain of frames. -/
  within {α : Type} : Env → (κ → μ α) → μ α
  /-- Evaluates a reference. -/
  visit {α : Type} : κ → Expr → μ α → μ α

/-- In a run a step is given its chain of frames, and nothing is noted. -/
instance Run.instEffects : Effects Env Run where
  plain step := step
  binding step := step
  newFrame _ frame := Run.onStore (Store.newFrame frame)
  snapshot env := Run.onStore (Store.snapshot (some .globals) env)
  here env step := step env
  within env step := step env
  visit _ _ step := step

end ObjScript
