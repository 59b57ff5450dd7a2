import ObjScript.Proofs.Scope.Visits
import ObjScript.Session

/-!
# Runs that keep track of their frames

Evaluation with two notes beside the machine: for each frame the scope that it was made for,
and each reference that was evaluated with the chain of frames at that moment.  The notes are only written,
never read, apart from the scope of a frame when the frame is copied.

A frame is made when a block statement or a body is entered, when a method is bound, and when a block
literal copies its surroundings.
-/

namespace ObjScript

/-- A reference that was evaluated, and the chain of frames at that moment. -/
structure Sighting where
  env : Env
  node : Expr

/-- A machine with the notes about its run. -/
structure Tracked where
  machine : Machine
  /-- For each frame the scope that it was made for; a copy has the scope of the original. -/
  origins : Array Opener
  sightings : List Sighting

/-- A step of a run with its notes. -/
abbrev Track := ExceptT Stop (StateM Tracked)

/-- The scope that a frame was made for. -/
def Tracked.origin (σ : Tracked) (f : FrameId) : Opener :=
  σ.origins.getD f.index .builtins

namespace Track

variable {α : Type}

/-- Runs a step that makes no frame. -/
def plain (step : Run α) : Track α :=
  ExceptT.mk (modifyGet fun σ =>
    let (result, machine) := step.run.run σ.machine
    (result, { σ with machine := machine }))

/-- Makes a frame for a scope. -/
def newFrame (origin : Opener) (frame : Frame) : Track FrameId := do
  let f ← plain (Run.onStore (Store.newFrame frame))
  modify fun σ => { σ with origins := σ.origins.push origin }
  return f

/-- The scope that the frame of a bound method is made for. -/
def boundOrigin : Value → Opener
  | .function f => .members f.decl
  | _ => .builtins

/-- Runs a step that makes a frame if it binds a method. -/
def binding (step : Run Value) : Track Value := do
  let before := (← get).machine.store.frames.size
  let v ← plain step
  modify fun σ =>
    if before < σ.machine.store.frames.size then { σ with origins := σ.origins.push (boundOrigin v) } else σ
  return v

/-- Copies the frames of a chain up to the built-in names. -/
def snapshot : Env → Track Env
  | [] => return []
  | f :: outer => do
    if f = .globals then
      return f :: outer
    else
      let outer ← snapshot outer
      let σ ← get
      let copy ← newFrame (σ.origin f) (σ.machine.store.frame f)
      return copy :: outer

/-- Notes that a reference is evaluated. -/
def sight (env : Env) (e : Expr) : Track Unit :=
  modify fun σ => { σ with sightings := ⟨env, e⟩ :: σ.sightings }

/-- Each reference is noted, and each frame with the scope that it is made for. -/
instance instEffects : Effects Env Track where
  plain := plain
  binding := binding
  newFrame := newFrame
  snapshot := snapshot
  here env step := step env
  within env step := step env
  visit env e step := do
    sight env e
    step

end Track

/-- Evaluators that keep track. -/
abbrev Tracker := Evaluators Env Track

/-- Evaluators that keep track, for nodes nested at most `n` deep. -/
abbrev tracker (n : Nat) : Tracker :=
  evaluators n

/-- Runs a program at the top level. -/
def Tracked.interpret (σ : Tracked) (stmts : List Stmt) : Except Escape Unit × Tracked :=
  match (Run.program (tracker depthLimit) Env.top stmts).run.run σ with
  | (.ok (), σ) => (.ok (), σ)
  | (.error (.fault f), σ) => (.ok (), { σ with machine := σ.machine.noteFault f })
  | (.error (.badNumeral b), σ) => (.error (.badNumeral b), σ)
  | (.error .unfinished, σ) => (.error .unfinished, σ)

/-- The notes before a program: there are the built-in names and the frame of the program. -/
def Tracked.initial (machine : Machine) : Tracked :=
  ⟨machine, #[.builtins, .program], []⟩

end ObjScript
