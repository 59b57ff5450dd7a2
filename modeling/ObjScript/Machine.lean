import ObjScript.Fault
import ObjScript.Log
import ObjScript.Store.Text
import ObjScript.Text.Lines

/-!
# The state of a run

A machine holds the store, what has been printed and written, the lines still to be read, the clock, the
log and the last failure.
-/

namespace ObjScript

/-- The state of a run. -/
structure Machine where
  store : Store
  /-- What `print` has put out; escapes are not expanded yet. -/
  printed : String
  /-- What `printLine` has written. -/
  written : String
  /-- The lines that are left to `readLine`. -/
  input : List String
  /-- The reading of the clock at each call. -/
  clock : Nat → Float
  /-- How often the clock was read. -/
  clockReads : Nat
  log : Log
  lastFault : Option Fault

/-- A step of a run. -/
abbrev Run := ExceptT Stop (StateM Machine)

/-- The lines of an input text. -/
def inputLines (text : String) : List String :=
  (Text.endedLines text.toList).map String.ofList

/-- The native functions that every program sees. -/
def globalFunctions : List Native :=
  [.clock, .array, .readLine, .printLine, .int]

/-- The chain of frames at the top level of a program: the program's own frame and the built-in names. -/
def Env.top : Env :=
  [⟨1⟩, FrameId.globals]

/-- The store before a program: the built-in names and an empty frame for the program. -/
def Store.initial : Store where
  frames :=
    #[⟨globalFunctions.map (fun n => (n.name, .native n)) ++ [("NSObject", .classRef ⟨0⟩)], none⟩,
      ⟨[], none⟩]
  arrays := #[]
  classes := #[⟨"NSObject", [], [], [("alloc", .alloc)]⟩]
  instances := #[]

/-- The machine before a program. -/
def Machine.initial (input : List String) (clock : Nat → Float) (threshold : Nat) : Machine where
  store := Store.initial
  printed := ""
  written := ""
  input := input
  clock := clock
  clockReads := 0
  log := ⟨threshold, #[]⟩
  lastFault := none

namespace Run

/-- Ends the run with a failure. -/
def fail {α : Type} (f : Fault) : Run α :=
  throw (.fault f)

/-- Runs a step on the store. -/
def onStore {α : Type} (step : WithStore α) : Run α := do
  let m ← get
  let (a, store) := step.run m.store
  set { m with store := store }
  return a

/-- Changes the store. -/
def modifyStore (f : Store → Store) : Run Unit :=
  modify fun m => { m with store := f m.store }

/-- The text of a value; an array that contains itself is too deep. -/
def text (v : Value) : Run String := do
  match (← get).store.text? v with
  | some t => return t
  | none => fail .tooDeep

/-- Logs a message that is only made if it is kept. -/
def debug (source : LogSource) (message : Run String) : Run Unit := do
  if (← get).log.keeps .debug then
    let t ← message
    modify fun m => { m with log := m.log.add ⟨.debug, source, t⟩ }

end Run

end ObjScript
