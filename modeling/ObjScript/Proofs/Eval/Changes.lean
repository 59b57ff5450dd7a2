import Mathlib.Logic.Relation
import ObjScript.Proofs.Eval.Tame
import ObjScript.Proofs.Text.Breaks

/-!
# What a run does to the machine

A run changes the machine in one of six ways at a time (`Machine.Change`): it works on the store, prints a line,
writes a line, takes a line of the input, reads the clock, or adds to the log.  Whatever an evaluator does is a series
of such changes, also where it is stopped (`stepwise_interp`).  The note about the last failure is not among them, and
what was printed stays: a run puts whole lines behind it (`Machine.Leads.printed_eq`).
-/

namespace ObjScript

/-- A change of the machine that a run makes. -/
inductive Machine.Change (m : Machine) : Machine → Prop where
  | store (s : Store) : Change m { m with store := s }
  | print (line : String) : Change m { m with printed := m.printed ++ line ++ "\n" }
  | write (line : String) : Change m { m with written := m.written ++ line ++ "\n" }
  | take {line : String} {rest : List String} (h : m.input = line :: rest) : Change m { m with input := rest }
  | clock : Change m { m with clockReads := m.clockReads + 1 }
  | log (r : LogRecord) : Change m { m with log := m.log.add r }

/-- A series of changes leads from one machine to the other. -/
abbrev Machine.Leads : Machine → Machine → Prop :=
  Relation.ReflTransGen Machine.Change

namespace Run

variable {α β : Type}

/-- The step makes a series of changes. -/
def Stepwise (t : Run α) : Prop :=
  ∀ m : Machine, m.Leads (t.result m).2

namespace Stepwise

private theorem pure (a : α) : Stepwise (pure a) :=
  fun _ => .refl

private theorem throw (e : Stop) : Stepwise (throw e : Run α) :=
  fun _ => .refl

private theorem bind {t : Run α} {k : α → Run β} (ht : Stepwise t) (hk : ∀ a, Stepwise (k a)) :
    Stepwise (t >>= k) := by
  intro m
  have hfirst := ht m
  rw [result_bind]
  generalize t.result m = x at hfirst ⊢
  obtain ⟨r, m'⟩ := x
  cases r with
  | error e => exact hfirst
  | ok a => exact hfirst.trans (hk a m')

/-- A step that looks at the machine. -/
private theorem look {k : Machine → Run α} (hk : ∀ m, Stepwise (k m)) : Stepwise (get >>= k) :=
  fun m => hk m m

/-- A single change. -/
private theorem modify {f : Machine → Machine} (hf : ∀ m : Machine, m.Change (f m)) :
    Stepwise (modify f : Run Unit) :=
  fun m => .single (hf m)

private theorem onStore (t : WithStore α) : Stepwise (onStore t) :=
  fun m => .single (.store (t.run m.store).2)

private theorem modifyStore (f : Store → Store) : Stepwise (modifyStore f) :=
  modify fun m => .store (f m.store)

end Stepwise

/-! ### Values and members -/

private theorem stepwise_text (v : Value) : Stepwise (text v) := by
  unfold text
  apply Stepwise.look
  intro m
  split
  · exact .pure _
  · exact .throw _

private theorem stepwise_debug {source : LogSource} {message : Run String} (h : Stepwise message) :
    Stepwise (debug source message) := by
  unfold debug
  apply Stepwise.look
  intro m
  split
  · apply h.bind
    intro t
    exact .modify fun m => .log _
  · exact .pure ()

private theorem stepwise_readName (env : Env) (name : String) : Stepwise (readName env name) :=
  .onStore _

private theorem stepwise_read (env : Env) (ref : Ref) : Stepwise (read env ref) :=
  stepwise_readName _ _

private theorem stepwise_define (env : Env) (name : String) (v : Value) : Stepwise (define env name v) :=
  .modifyStore _

private theorem stepwise_assign (env : Env) (ref : Ref) (v : Value) : Stepwise (assign env ref v) := by
  obtain ⟨name, depth⟩ := ref
  cases depth with
  | some depth => exact .modifyStore _
  | none =>
    intro m
    -- the store that is put back is one of this very machine
    unfold assign
    dsimp only
    rw [result_get_bind]
    cases m.store.assign? env name.text v with
    | some store => exact .single (.store store)
    | none => exact stepwise_debug (.pure _) m

private theorem stepwise_staticMethod (found : Option FoundMethod) (c : ClassId) :
    Stepwise (staticMethod found c) := by
  unfold staticMethod
  split
  · exact .onStore _
  · exact .pure _
  · exact .pure _

private theorem stepwise_instanceMember (i : InstanceId) (name : String) : Stepwise (instanceMember i name) := by
  unfold instanceMember
  apply Stepwise.look
  intro m
  split
  · exact .onStore _
  · exact .pure _

private theorem stepwise_superMethod (c : ClassId) (name : String) : Stepwise (superMethod c name) :=
  .look fun _ => .pure _

private theorem stepwise_ofSuper (found : Option FoundMethod) (c : ClassId) (name : String) (self : Value) :
    Stepwise (ofSuper found c name self) := by
  unfold ofSuper
  split
  · split
    · exact .onStore _
    · exact .pure _
    · exact .pure _
  · exact stepwise_staticMethod _ c

private theorem stepwise_superMember (env : Env) (c : ClassId) (name : String) :
    Stepwise (superMember env c name) := by
  apply (stepwise_superMethod c name).bind
  intro found
  apply (stepwise_readName env "self").bind
  intro self
  exact stepwise_ofSuper found c name self

private theorem stepwise_member (env : Env) (viaSuper : Bool) (v : Value) (name : String) :
    Stepwise (member env viaSuper v name) := by
  unfold member
  split
  · exact stepwise_instanceMember _ name
  · split
    · exact stepwise_superMember env _ name
    · exact .look fun m => stepwise_staticMethod _ _
  · exact .pure _

private theorem stepwise_element (v place : Value) : Stepwise (element v place) := by
  unfold element
  split
  · exact .look fun m => .pure _
  · split
    · exact .pure _
    · exact .pure _
  · exact .pure _

private theorem stepwise_setElement (a : ArrayId) (place v : Value) : Stepwise (setElement a place v) := by
  unfold setElement
  apply Stepwise.look
  intro m
  split
  · exact .modifyStore _
  · apply stepwise_debug
    exact (stepwise_text place).bind fun t => .pure _

private theorem stepwise_superclassOf (name : String) (v : Value) : Stepwise (superclassOf name v) := by
  unfold superclassOf
  split
  · exact .look fun m => .pure _
  · apply Stepwise.bind
    · exact stepwise_debug ((stepwise_text v).bind fun t => .pure _)
    · intro _
      exact .pure _

private theorem stepwise_implement (env : Env) (name : String) (methods : List FunctionDecl) :
    Stepwise (implement env name methods) := by
  rw [implement_eq]
  apply (stepwise_readName env name).bind
  intro v
  cases v with
  | classRef c => exact .modifyStore _
  | _ => exact stepwise_debug (.pure _)

private theorem stepwise_makeClass (env : Env) (name : String) (lineage : List ClassId)
    (properties : Bindings Value) :
    Stepwise (makeClass env name lineage properties) :=
  (Stepwise.onStore _).bind fun _ => .modifyStore _

/-! ### Operators and native functions -/

private theorem stepwise_add (v w : Value) (pos : Pos) : Stepwise (add v w pos) := by
  unfold add
  split
  · exact .pure _
  · exact .pure _
  · exact .pure _
  · exact .pure _
  · exact .throw _

private theorem stepwise_operand (op : BinaryOp) (pos : Pos) (v : Value) : Stepwise (operand op pos v) := by
  unfold operand
  split
  · exact .pure _
  · exact .throw _

private theorem stepwise_binary (op : BinaryOp) (pos : Pos) (v w : Value) : Stepwise (binary op pos v w) := by
  unfold binary
  split
  · exact stepwise_add v w pos
  · exact .pure _
  · exact .pure _
  · apply (stepwise_operand _ pos v).bind
    intro x
    apply (stepwise_operand _ pos w).bind
    intro y
    exact .pure _

private theorem stepwise_unary (op : UnaryOp) (pos : Pos) (v : Value) : Stepwise (unary op pos v) := by
  unfold unary
  split
  · exact .pure _
  · exact .pure _
  · exact .throw _

private theorem stepwise_assigned {op : AssignOp} {pos : Pos} {old : Run Value} (v : Value) (hold : Stepwise old) :
    Stepwise (assigned op pos old v) := by
  unfold assigned
  split
  · apply hold.bind
    intro w
    exact stepwise_add w v pos
  · exact .pure v

private theorem stepwise_arraySize (args : List Value) : Stepwise (arraySize args) := by
  unfold arraySize
  split
  · split
    · split
      · exact .throw _
      · exact .pure _
    · exact .pure _
  · exact .pure _

private theorem stepwise_readLine : Stepwise readLine := by
  intro m
  unfold readLine
  rw [result_get_bind]
  cases hinput : m.input with
  | nil => exact .refl
  | cons line rest => exact .single (.take hinput)

private theorem stepwise_printLine (args : List Value) : Stepwise (printLine args) := by
  have hwrite : ∀ line : String, Stepwise (do
      modify fun m => { m with written := m.written ++ Text.expandBreaks line ++ "\n" }
      return Value.null) := by
    intro line
    apply Stepwise.bind
    · exact .modify fun m => .write (Text.expandBreaks line)
    · intro _
      exact .pure _
  unfold printLine
  split
  · exact hwrite ""
  · exact hwrite ""
  · exact (stepwise_text _).bind hwrite

private theorem stepwise_int (args : List Value) : Stepwise (int args) := by
  unfold int
  split
  · split
    · split
      · exact .pure _
      · exact .throw _
    · exact .pure _
  · exact .pure _

private theorem stepwise_native (n : Native) (args : List Value) : Stepwise (native n args) := by
  unfold native
  cases n with
  | clock => exact fun m => .single .clock
  | array =>
    unfold array
    apply (stepwise_arraySize args).bind
    intro size
    exact (Stepwise.onStore _).bind fun a => .pure _
  | readLine => exact stepwise_readLine
  | printLine => exact stepwise_printLine args
  | int => exact stepwise_int args
  | alloc c => exact .onStore _
  | init i => exact .pure _

private theorem stepwise_builtin (b : Builtin) : Stepwise (builtin b) := by
  rw [builtin_eq_handler]
  cases b with
  | arrayCount a => exact .look fun m => .pure _
  | arrayPop a => exact .look fun m => (Stepwise.modifyStore _).bind fun _ => .pure _
  | stringCount s => exact .pure _

/-! ### Evaluation -/

end Run

/-- The evaluators make a series of changes each time. -/
structure Interp.Stepwise (i : Interp) : Prop where
  eval : ∀ env e, Run.Stepwise (i.eval env e)
  exec : ∀ env t, Run.Stepwise (i.exec env t)

namespace Run

section Parts

variable {i : Interp} (hi : i.Stepwise)

include hi

private theorem stepwise_evalAll (env : Env) (es : List Expr) : Stepwise (evalAll i env es) := by
  induction es with
  | nil => exact .pure _
  | cons e rest ih =>
    apply (hi.eval env e).bind
    intro v
    exact ih.bind fun vs => .pure _

private theorem stepwise_execAll (env : Env) (ts : List Stmt) : Stepwise (execAll i env ts) := by
  induction ts with
  | nil => exact .pure _
  | cons t rest ih =>
    apply (hi.exec env t).bind
    intro r
    cases r with
    | some v => exact .pure _
    | none => exact ih

private theorem stepwise_evalOption (env : Env) (o : Option Expr) : Stepwise (evalOption i env o) := by
  cases o with
  | none => exact .pure _
  | some e => exact hi.eval env e

private theorem stepwise_holds (env : Env) (o : Option Expr) : Stepwise (holds i env o) := by
  cases o with
  | none => exact .pure _
  | some e => exact (hi.eval env e).bind fun v => .pure _

private theorem stepwise_evalProperties (env : Env) (ds : List VarDecl) (b : Bindings Value) :
    Stepwise (evalProperties i env ds b) := by
  induction ds generalizing b with
  | nil => exact .pure b
  | cons d rest ih =>
    obtain ⟨type, name, init⟩ := d
    cases init with
    | none => exact ih _
    | some e => exact (hi.eval env e).bind fun v => ih _

private theorem stepwise_invoke (params : List Param) (body : List Stmt) (env : Env) (args : List Value) :
    Stepwise (invoke i params body env args) := by
  apply Stepwise.bind (.onStore _)
  intro frame
  exact (stepwise_execAll hi (frame :: env) body).bind fun r => .pure _

private theorem stepwise_call (callee : Value) (args : List Value) : Stepwise (call i callee args) := by
  unfold call
  split
  · exact stepwise_invoke hi _ _ _ args
  · exact stepwise_invoke hi _ _ _ args
  · exact stepwise_native _ args
  · exact .onStore _
  · exact stepwise_builtin _
  · apply Stepwise.bind
    · exact stepwise_debug ((stepwise_text callee).bind fun t => .pure _)
    · intro _
      exact .pure _

private theorem stepwise_turn (env : Env) (condition step : Option Expr) (body : Stmt) :
    Stepwise (turn i env condition step body) := by
  apply (stepwise_holds hi env condition).bind
  intro b
  split
  · apply (hi.exec env body).bind
    intro r
    cases r with
    | some v => exact .pure _
    | none => exact (stepwise_evalOption hi env step).bind fun _ => .pure _
  · exact .pure _

omit hi in
private theorem stepwise_loop {t : Run Turn} (ht : Stepwise t) (n : Nat) : Stepwise (loop t n) := by
  induction n with
  | zero => exact .throw _
  | succ n ih =>
    apply ht.bind
    intro r
    cases r with
    | again => exact ih
    | done result => exact .pure result

private theorem stepwise_evalExpr (env : Env) (e : Expr) : Stepwise (evalExpr i env e) := by
  cases e with
  | literal value => exact .pure _
  | «variable» ref => exact stepwise_read env ref
  | selfRef ref => exact stepwise_read env ref
  | superRef ref => exact stepwise_read env ref
  | grouping inner => exact hi.eval env inner
  | unary op pos operand =>
    apply (hi.eval env operand).bind
    intro v
    exact stepwise_unary op pos v
  | binary left op pos right =>
    apply (hi.eval env left).bind
    intro l
    apply (hi.eval env right).bind
    intro r
    exact stepwise_binary op pos l r
  | logical left op right =>
    apply (hi.eval env left).bind
    intro l
    dsimp only
    split
    · exact .pure _
    · exact .pure _
    · exact (hi.eval env right).bind fun r => .pure _
  | ternary condition yes no =>
    apply (hi.eval env condition).bind
    intro c
    split
    · exact hi.eval env yes
    · exact hi.eval env no
  | assign target op pos value =>
    apply (hi.eval env value).bind
    intro v
    apply (stepwise_assigned v (stepwise_read env target)).bind
    intro w
    exact (stepwise_assign env target w).bind fun _ => .pure w
  | array items =>
    apply (stepwise_evalAll hi env items).bind
    intro vs
    exact (Stepwise.onStore _).bind fun a => .pure _
  | index object place =>
    apply (hi.eval env object).bind
    intro v
    apply (hi.eval env place).bind
    intro p
    exact stepwise_element v p
  | setIndex object place op pos value =>
    apply (hi.eval env object).bind
    intro o
    split
    · apply (hi.eval env place).bind
      intro p
      apply (hi.eval env value).bind
      intro v
      apply (stepwise_assigned v (stepwise_element _ p)).bind
      intro w
      exact (stepwise_setElement _ p w).bind fun _ => .pure w
    · exact .pure _
  | get object name =>
    apply (hi.eval env object).bind
    intro v
    exact stepwise_member env _ v name.text
  | set object name op pos value =>
    apply (hi.eval env object).bind
    intro o
    split
    · apply (hi.eval env value).bind
      intro v
      apply (stepwise_assigned v (stepwise_instanceMember _ name.text)).bind
      intro w
      exact (Stepwise.modifyStore _).bind fun _ => .pure w
    · exact .pure _
  | call callee args =>
    apply (hi.eval env callee).bind
    intro f
    apply (stepwise_evalAll hi env args).bind
    intro vs
    exact stepwise_call hi f vs
  | block returns params body => exact (Stepwise.onStore _).bind fun env' => .pure _

omit hi in
private theorem stepwise_lineageOf (env : Env) (name : String) (superclass : Option Ref) :
    Stepwise (lineageOf env name superclass) := by
  cases superclass with
  | none => exact .pure []
  | some ref => exact (stepwise_read env ref).bind fun v => stepwise_superclassOf name v

private theorem stepwise_defineClass (env : Env) (name : String) (properties : List VarDecl)
    (lineage : List ClassId) :
    Stepwise (defineClass i env name properties lineage) := by
  apply (stepwise_define env name .null).bind
  intro _
  apply (stepwise_evalProperties hi env properties []).bind
  intro initial
  exact stepwise_makeClass env name lineage initial

private theorem stepwise_execStmt (env : Env) (t : Stmt) : Stepwise (execStmt i env t) := by
  cases t with
  | block body =>
    apply Stepwise.bind (.onStore _)
    intro frame
    exact stepwise_execAll hi (frame :: env) body
  | branch condition yes no =>
    apply (hi.eval env condition).bind
    intro c
    split
    · exact hi.exec env yes
    · cases no with
      | none => exact .pure _
      | some no => exact hi.exec env no
  | loop condition body => exact stepwise_loop (stepwise_turn hi env (some condition) none body) loopBound
  | count init condition step body =>
    have hloop := stepwise_loop (stepwise_turn hi env condition step body) loopBound
    cases init with
    | none => exact hloop
    | some s => exact (hi.exec env s).bind fun _ => hloop
  | result value => exact (stepwise_evalOption hi env value).bind fun v => .pure _
  | expr e => exact (hi.eval env e).bind fun _ => .pure _
  | var decl =>
    obtain ⟨type, name, init⟩ := decl
    apply (stepwise_evalOption hi env init).bind
    intro v
    exact (stepwise_define env name.text v).bind fun _ => .pure _
  | function decl => exact (stepwise_define env decl.name.text (.function ⟨decl, env⟩)).bind fun _ => .pure _
  | print value =>
    apply (hi.eval env value).bind
    intro v
    split
    · apply (stepwise_text v).bind
      intro line
      apply Stepwise.bind
      · exact .modify fun m => .print line
      · intro _
        exact .pure _
    · exact .pure _
  | classDef name superclass methods properties =>
    apply (stepwise_lineageOf env name.text superclass).bind
    intro lineage
    exact (stepwise_defineClass hi env name.text properties lineage).bind fun _ => .pure _
  | classImpl name methods => exact (stepwise_implement env name.text methods).bind fun _ => .pure _
  | typeDef name type => exact .pure _

theorem stepwise_program (env : Env) (ts : List Stmt) : Stepwise (program i env ts) := by
  induction ts with
  | nil => exact .pure ()
  | cons t rest ih =>
    apply (hi.exec env t).bind
    intro r
    cases r with
    | some v => exact .throw _
    | none => exact ih

end Parts

end Run

/-- Evaluators make a series of changes, however deep nodes may be nested. -/
theorem stepwise_interp (n : Nat) : (interp n).Stepwise := by
  induction n with
  | zero => exact ⟨fun _ _ => .throw _, fun _ _ => .throw _⟩
  | succ n ih => exact ⟨Run.stepwise_evalExpr ih, Run.stepwise_execStmt ih⟩

namespace Machine.Leads

variable {m m' : Machine}

/-- A run does not touch the note about the last failure. -/
theorem lastFault_eq (h : m.Leads m') : m'.lastFault = m.lastFault := by
  induction h with
  | refl => rfl
  | tail _ hchange ih =>
    rw [← ih]
    cases hchange <;> rfl

/-- A run puts whole lines behind what was printed. -/
theorem printed_eq (h : m.Leads m') : ∃ lines, m'.printed = m.printed ++ Text.ofLines lines := by
  induction h with
  | refl => exact ⟨[], by simp [Text.ofLines]⟩
  | tail _ hchange ih =>
    obtain ⟨lines, hprinted⟩ := ih
    -- of all changes only `print` is seen in the output
    cases hchange with
    | print line =>
      refine ⟨lines ++ [line], ?_⟩
      apply String.toList_inj.1
      simp [hprinted, Text.ofLines]
    | _ => exact ⟨lines, hprinted⟩

end Machine.Leads

end ObjScript
