import ObjScript.Eval.Effects

/-!
# Evaluation

Expressions and statements are evaluated in a chain of frames.  Evaluating one node calls the evaluators
of its parts; `evaluators n` ties them together for nodes nested at most `n` deep, calls included, and fails
on deeper ones.  All of it is written for any effects of evaluation; `interp n` has those of a run.
-/

namespace ObjScript

/-- Evaluators of expressions and statements.  A statement gives a value once a `return` has run. -/
structure Evaluators (κ : Type) (μ : Type → Type) where
  eval : κ → Expr → μ Value
  exec : κ → Stmt → μ (Option Value)

/-- The evaluators of a run. -/
abbrev Interp := Evaluators Env Run

/-- How far a loop may go on; no run lasts that long. -/
def loopBound : Nat := Nat.pow 2 60

namespace Run

/-- What one turn of a loop leads to: another turn, or the end of the loop. -/
inductive Turn where
  | again
  | done (result : Option Value)

/-- The bindings of the parameters; missing arguments are null. -/
def bindParams : List Param → List Value → Bindings Value → Bindings Value
  | [], _, b => b
  | p :: rest, [], b => bindParams rest [] (b.put p.name.text .null)
  | p :: rest, v :: args, b => bindParams rest args (b.put p.name.text v)

/-- The expression is `super` itself. -/
def isSuper : Expr → Bool
  | .superRef _ => true
  | _ => false

open Effects

variable {κ : Type} {μ : Type → Type} [Monad μ]

/-- Evaluates expressions from left to right. -/
def evalAll (i : Evaluators κ μ) (c : κ) : List Expr → μ (List Value)
  | [] => return []
  | e :: rest => do
    let v ← i.eval c e
    let vs ← evalAll i c rest
    return v :: vs

/-- Executes statements until one returns. -/
def execAll (i : Evaluators κ μ) (c : κ) : List Stmt → μ (Option Value)
  | [] => return none
  | s :: rest => do
    match ← i.exec c s with
    | some v => return some v
    | none => execAll i c rest

/-- The value of an expression, null if it is absent. -/
def evalOption (i : Evaluators κ μ) (c : κ) : Option Expr → μ Value
  | none => return .null
  | some e => i.eval c e

/-- A condition holds; an absent one always does. -/
def holds (i : Evaluators κ μ) (c : κ) : Option Expr → μ Bool
  | none => return true
  | some e => do return (← i.eval c e).isTrue

/-- One turn of a loop with a condition, a body and a step. -/
def turn (i : Evaluators κ μ) (c : κ) (condition : Option Expr) (step : Option Expr) (body : Stmt) :
    μ Turn := do
  if ← holds i c condition then
    match ← i.exec c body with
    | some v => return .done (some v)
    | none =>
      let _ ← evalOption i c step
      return .again
  else
    return .done none

/-- The initial values of the properties of a class. -/
def evalProperties (i : Evaluators κ μ) (c : κ) : List VarDecl → Bindings Value → μ (Bindings Value)
  | [], b => return b
  | ⟨type, name, init⟩ :: rest, b => do
    let v ← match init with
      | some e => i.eval c e
      | none => pure (defaultValue type)
    evalProperties i c rest (b.put name.text v)

variable [Effects κ μ]

/-- Takes turns until the loop ends. -/
def loop (turn : μ Turn) : Nat → μ (Option Value)
  | 0 => plain (throw .unfinished)
  | n + 1 => do
    match ← turn with
    | .again => loop turn n
    | .done result => return result

/-- Runs a body in a new frame with its parameters. -/
def invoke (i : Evaluators κ μ) (params : List Param) (body : List Stmt) (env : Env) (args : List Value) :
    μ Value := do
  let frame ← newFrame (.body params body) ⟨bindParams params args [], none⟩
  return (← within (frame :: env) fun c => execAll i c body).getD .null

/-- Calls a value.  What cannot be called gives null. -/
def call (i : Evaluators κ μ) (callee : Value) (args : List Value) : μ Value :=
  match callee with
  | .function f => invoke i f.decl.params f.decl.body f.env args
  | .block b => invoke i b.params b.body b.env args
  | .native n => plain (native n args)
  | .classRef c => plain (onStore (Store.allocate c))
  | .builtin b => plain (builtin b)
  | v => do
    plain (debug .calls do return "call of non-callable " ++ (← text v) ++ " ignored")
    return .null

/-- The value of a reference in the current chain of frames. -/
def reading (c : κ) (ref : Ref) : μ Value :=
  here c fun env => binding (read env ref)

/-- The value to be stored by an assignment, `old` being the value before. -/
def assigned (op : AssignOp) (pos : Pos) (old : μ Value) (v : Value) : μ Value := do
  if op.isCompound then
    let old ← old
    plain (add old v pos)
  else
    return v

/-- The member of the class that `super` stands for. -/
def superMember (env : Env) (c : ClassId) (name : String) : μ Value := do
  let found ← plain (superMethod c name)
  let self ← binding (readName env "self")
  binding (ofSuper found c name self)

/-- The member of a value.  Whether it was reached through `super` counts for classes. -/
def member (env : Env) (viaSuper : Bool) (v : Value) (name : String) : μ Value :=
  match v with
  | .object i => binding (instanceMember i name)
  | .classRef c => if viaSuper then superMember env c name else binding (classMember c name)
  | v => return builtinMember v name

/-- Evaluates an expression by evaluating its parts. -/
def evalExpr (i : Evaluators κ μ) (c : κ) : Expr → μ Value
  | .literal value => return value.value
  | .variable ref => visit c (.variable ref) (reading c ref)
  | .selfRef ref => visit c (.selfRef ref) (reading c ref)
  | .superRef ref => visit c (.superRef ref) (reading c ref)
  | .grouping inner => i.eval c inner
  | .unary op pos operand => do
    let v ← i.eval c operand
    plain (unary op pos v)
  | .binary left op pos right => do
    let l ← i.eval c left
    let r ← i.eval c right
    plain (binary op pos l r)
  | .logical left op right => do
    let l := (← i.eval c left).isTrue
    match op, l with
    | .or, true => return .bool true
    | .and, false => return .bool false
    | _, _ => return .bool (← i.eval c right).isTrue
  | .ternary condition yes no => do
    if (← i.eval c condition).isTrue then i.eval c yes else i.eval c no
  | .assign target op pos value => visit c (.assign target op pos value) do
    let v ← i.eval c value
    let v ← assigned op pos (reading c target) v
    here c fun env => plain (assign env target v)
    return v
  | .array items => do
    let values ← evalAll i c items
    let kept := values.filter fun v => !v.isNull
    return .array (← plain (onStore (Store.newArray kept.toArray)))
  | .index object place => do
    let v ← i.eval c object
    let p ← i.eval c place
    plain (element v p)
  | .setIndex object place op pos value => do
    match ← i.eval c object with
    | .array a =>
      let p ← i.eval c place
      let v ← i.eval c value
      let v ← assigned op pos (plain (element (.array a) p)) v
      plain (setElement a p v)
      return v
    | _ => return .null
  | .get object name => do
    let v ← i.eval c object
    here c fun env => member env (isSuper object) v name.text
  | .set object name op pos value => do
    match ← i.eval c object with
    | .object o =>
      let v ← i.eval c value
      let v ← assigned op pos (binding (instanceMember o name.text)) v
      plain (modifyStore (·.putProperty o name.text v))
      return v
    | _ => return .null
  | .call callee args => do
    let f ← i.eval c callee
    let vs ← evalAll i c args
    call i f vs
  | .block _ params body => here c fun env => do
    return .block ⟨params, body, ← snapshot env⟩

/-- The classes above a class that is being defined. -/
def lineageOf (c : κ) (name : String) (superclass : Option Ref) : μ (List ClassId) :=
  match superclass with
  | some ref => do
    let v ← visit c (.variable ref) (reading c ref)
    plain (superclassOf name v)
  | none => return []

/-- The rest of the definition of a class, once the classes above it are known.  Its name is bound to null,
the properties get their initial values, and only then there is a class for the name. -/
def defineClass (i : Evaluators κ μ) (c : κ) (name : String) (properties : List VarDecl) (lineage : List ClassId) :
    μ Unit := do
  here c fun env => plain (define env name .null)
  let initial ← evalProperties i c properties []
  here c fun env => plain (makeClass env name lineage initial)

/-- The methods that an implementation gives to its class. -/
def methodTable (env : Env) (methods : List FunctionDecl) : Bindings Method :=
  Bindings.putAll [] (methods.map fun d => (d.name.text, Method.closure ⟨d, env⟩))

/-- Gives methods to the class that a name stands for. -/
def implement (env : Env) (name : String) (methods : List FunctionDecl) : μ Unit := do
  let v ← binding (readName env name)
  if !(← plain (onStore (Store.addMethods (methodTable env methods) v))) then
    plain (debug .objects do return "@implementation " ++ name ++ " has no matching class")

/-- Executes a statement by evaluating its parts. -/
def execStmt (i : Evaluators κ μ) (c : κ) : Stmt → μ (Option Value)
  | .block body => here c fun env => do
    let frame ← newFrame (.block body) ⟨[], none⟩
    within (frame :: env) fun c => execAll i c body
  | .branch condition yes no => do
    if (← i.eval c condition).isTrue then
      i.exec c yes
    else
      match no with
      | some s => i.exec c s
      | none => return none
  | .loop condition body => loop (turn i c (some condition) none body) loopBound
  | .count init condition step body => do
    match init with
    | some s =>
      let _ ← i.exec c s
    | none => pure ()
    loop (turn i c condition step body) loopBound
  | .result value => do return some (← evalOption i c value)
  | .expr e => do
    let _ ← i.eval c e
    return none
  | .var ⟨_, name, init⟩ => do
    let v ← evalOption i c init
    here c fun env => plain (define env name.text v)
    return none
  | .function decl => do
    here c fun env => plain (define env decl.name.text (.function ⟨decl, env⟩))
    return none
  | .print value => do
    let v ← i.eval c value
    if !v.isNull then
      let t ← plain (text v)
      plain (modify fun m => { m with printed := m.printed ++ t ++ "\n" })
    return none
  | .classDef name superclass _ properties => do
    let lineage ← lineageOf c name.text superclass
    defineClass i c name.text properties lineage
    return none
  | .classImpl name methods => do
    here c fun env => implement env name.text methods
    return none
  | .typeDef _ _ => return none

/-- Executes a program.  A `return` at its top level is a failure. -/
def program (i : Evaluators κ μ) (c : κ) : List Stmt → μ Unit
  | [] => return ()
  | s :: rest => do
    match ← i.exec c s with
    | some _ => plain (fail .returnOutside)
    | none => program i c rest

/-! ### The steps of a run -/

/-- An implementation gives its methods to the class that the store has for the name. -/
theorem implement_eq_implementClass (env : Env) (name : String) (methods : List FunctionDecl) :
    (implement env name methods : Run Unit) = (do
      if !(← onStore (Store.implementClass env name (methodTable env methods))) then
        debug .objects do return "@implementation " ++ name ++ " has no matching class") :=
  rfl

/-- Only a class is given methods. -/
theorem implement_eq (env : Env) (name : String) (methods : List FunctionDecl) :
    implement env name methods = (readName env name >>= fun v =>
      match v with
      | .classRef c => modifyStore (·.putMethods c (methodTable env methods))
      | _ => debug .objects do return "@implementation " ++ name ++ " has no matching class") := by
  apply bind_congr
  intro v
  cases v <;> rfl

/-- The superclass of a definition is a reference. -/
theorem lineageOf_some (env : Env) (name : String) (ref : Ref) :
    lineageOf env name (some ref) = read env ref >>= superclassOf name :=
  rfl

/-- A definition finds the classes above the new one first. -/
theorem execStmt_classDef (i : Interp) (env : Env) (name : Name) (superclass : Option Ref)
    (methods : List FunctionDecl) (properties : List VarDecl) :
    execStmt i env (.classDef name superclass methods properties) = (do
      let lineage ← lineageOf env name.text superclass
      defineClass i env name.text properties lineage
      return none) :=
  rfl

end Run

/-- Evaluators for nodes nested at most `n` deep. -/
def evaluators {κ : Type} {μ : Type → Type} [Monad μ] [Effects κ μ] : Nat → Evaluators κ μ
  | 0 =>
    { eval := fun _ _ => Effects.plain (Run.fail .tooDeep)
      exec := fun _ _ => Effects.plain (Run.fail .tooDeep) }
  | n + 1 =>
    { eval := Run.evalExpr (evaluators n)
      exec := Run.execStmt (evaluators n) }

/-- The evaluators of a run for nodes nested at most `n` deep. -/
abbrev interp (n : Nat) : Interp :=
  evaluators n

/-- How deep nodes may be nested in a run. -/
def depthLimit : Nat := 1000

/-- The text that marks a failed run in its output. -/
def failureMark : String := "\nERROR"

/-- Notes a failure: it is kept, logged and marked in the output. -/
def Machine.noteFault (m : Machine) (f : Fault) : Machine :=
  { m with
    lastFault := some f
    log := m.log.add ⟨.warning, .evaluator, "runtime error: " ++ f.text⟩
    printed := m.printed ++ failureMark }

/-- What a run cannot recover from by itself. -/
inductive Escape where
  | badNumeral (b : Number.BadNumeral)
  | unfinished
deriving DecidableEq, Repr

/-- Runs a program at the top level.  A failure stops it and is noted; what was done before stays. -/
def Machine.interpret (m : Machine) (stmts : List Stmt) : Except Escape Unit × Machine :=
  match (Run.program (interp depthLimit) Env.top stmts).run.run m with
  | (.ok (), m) => (.ok (), m)
  | (.error (.fault f), m) => (.ok (), m.noteFault f)
  | (.error (.badNumeral b), m) => (.error (.badNumeral b), m)
  | (.error .unfinished, m) => (.error .unfinished, m)

end ObjScript
