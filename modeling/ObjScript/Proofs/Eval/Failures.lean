import ObjScript.Proofs.Eval.Variables
import ObjScript.Proofs.Eval.Watched

/-!
# How runs fail

`Node.Fails` lists the failures that a node can lead to by itself: an operator does not take its operands, a call
asks for too large an array, and anything can be nested too deep.  `Run.Ends` follows this through a run: if every
node that is evaluated belongs to some code, then every failure is one of a node of that code (`ends_watched`).  A
statement gives a value only if a `return` stands in it outside of all bodies (`Stmt.Returns`).
-/

namespace ObjScript

/-- The complaint about operands is one of this operator. -/
def BinaryOp.Rejects (op : BinaryOp) (fault : TypeFault) : Prop :=
  match op with
  | .eq | .neq => False
  | .plus => ∃ left right, fault = .cannotAdd left right
  | op => ∃ got, fault = .notANumber op.symbol.text got

/-- The complaint about operands is one of the operator of this node, which stands at `pos`. -/
def Node.Rejects (n : Node) (fault : TypeFault) (pos : Pos) : Prop :=
  match n with
  | .expr (.binary _ op place _) => place = pos ∧ op.Rejects fault
  | .expr (.unary .negate place _) => place = pos ∧ ∃ got, fault = .cannotNegate got
  | .expr (.assign _ op place _) | .expr (.set _ _ op place _) | .expr (.setIndex _ _ op place _) =>
    place = pos ∧ op.isCompound = true ∧ ∃ left right, fault = .cannotAdd left right
  | _ => False

/-- The failures that a node can lead to by itself. -/
inductive Node.Fails : Node → Fault → Prop where
  | tooDeep {n : Node} : n.Fails .tooDeep
  | type {n : Node} {fault : TypeFault} {pos : Pos} : n.Rejects fault pos → n.Fails (.type fault pos)
  | arrayTooLarge {callee : Expr} {args : List Expr} {x : Float} : maxArraySize.toFloat < x →
      Node.Fails (.expr (.call callee args)) (.arrayTooLarge (Number.text x))

/-- A `return` stands in the statement, outside of the bodies of functions, methods and blocks. -/
inductive Stmt.Returns : Stmt → Prop where
  | result (value : Option Expr) : Returns (.result value)
  | block {body : List Stmt} {t : Stmt} : t ∈ body → t.Returns → Returns (.block body)
  | yes {condition : Expr} {yes : Stmt} {no : Option Stmt} : yes.Returns → Returns (.branch condition yes no)
  | no {condition : Expr} {yes no : Stmt} : no.Returns → Returns (.branch condition yes (some no))
  | loop {condition : Expr} {body : Stmt} : body.Returns → Returns (.loop condition body)
  | count {init : Option Stmt} {condition step : Option Expr} {body : Stmt} : body.Returns →
      Returns (.count init condition step body)

namespace Run

variable {α β : Type} {P : Fault → Prop}

/-- The step fails in these ways only, its results have the property, and it does not touch the note about the last
failure. -/
def Ends (P : Fault → Prop) (Q : α → Prop) (t : Run α) : Prop :=
  ∀ m, (t.result m).2.lastFault = m.lastFault ∧
    match (t.result m).1 with
    | .ok a => Q a
    | .error (.fault f) => P f
    | .error _ => True

/-- Any result. -/
abbrev Any (_ : α) : Prop := True

namespace Ends

variable {Q Q' : α → Prop} {R : β → Prop}

private theorem pure {a : α} (ha : Q a) : Ends P Q (pure a) :=
  fun _ => ⟨rfl, ha⟩

private theorem fail {f : Fault} (hf : P f) : Ends P Q (fail f) :=
  fun _ => ⟨rfl, hf⟩

private theorem bind {t : Run α} {k : α → Run β} (ht : Ends P Q t) (hk : ∀ a, Q a → Ends P R (k a)) :
    Ends P R (t >>= k) := by
  intro m
  obtain ⟨hlast, hm⟩ := ht m
  rw [result_bind]
  match hr : t.result m with
  | (.ok a, m') =>
    rw [hr] at hlast hm
    obtain ⟨hlast', hm'⟩ := hk a hm m'
    exact ⟨hlast'.trans hlast, hm'⟩
  | (.error (.fault f), m') =>
    rw [hr] at hlast hm
    exact ⟨hlast, hm⟩
  | (.error (.badNumeral b), m') =>
    rw [hr] at hlast
    exact ⟨hlast, trivial⟩
  | (.error .unfinished, m') =>
    rw [hr] at hlast
    exact ⟨hlast, trivial⟩

private theorem weaken {t : Run α} (ht : Ends P Q t) (hQ : ∀ a, Q a → Q' a) : Ends P Q' t := by
  have h := ht.bind (k := Pure.pure) fun a ha => .pure (hQ a ha)
  rwa [bind_pure] at h

/-- A step that looks at the machine. -/
private theorem look {k : Machine → Run α} (hk : ∀ m, Ends P Q (k m)) : Ends P Q (get >>= k) :=
  fun m => hk m m

private theorem modify {f : Machine → Machine} (hf : ∀ m, (f m).lastFault = m.lastFault) :
    Ends P Any (modify f : Run Unit) :=
  fun m => ⟨hf m, trivial⟩

private theorem onStore (t : WithStore α) : Ends P Any (onStore t) :=
  fun _ => ⟨rfl, trivial⟩

private theorem modifyStore (f : Store → Store) : Ends P Any (modifyStore f) :=
  .modify fun _ => rfl

/-- A step behind a demand is only taken where the law holds. -/
private theorem demand {law : Prop} {t : Run α} (ht : law → Ends P Q t) :
    Ends P Q (demand (fun _ => law) .unfinished >>= fun _ => t) := by
  intro m
  by_cases hlaw : law
  · rw [result_bind, result_demand hlaw]
    exact ht hlaw m
  · have hstop : (Run.demand (fun _ => law) .unfinished).result m = (.error .unfinished, m) := by
      have hresult : (Run.demand (fun _ => law) .unfinished).result m =
          Run.result (open Classical in if law then Pure.pure () else throw .unfinished) m := rfl
      rw [hresult, if_neg hlaw]
      rfl
    rw [result_bind, hstop]
    exact ⟨rfl, trivial⟩

end Ends

end Run

/-- The evaluators fail in these ways only, and a statement that gives a value has a `return` in it. -/
structure Interp.Ends (P : Fault → Prop) (i : Interp) : Prop where
  eval : ∀ env e, Run.Ends P Run.Any (i.eval env e)
  exec : ∀ env t, Run.Ends P (fun o => o.isSome = true → t.Returns) (i.exec env t)

namespace Run

variable {P : Fault → Prop}

/-! ### Values and members -/

private theorem ends_debug {source : LogSource} {message : Run String} (h : Ends P Any message) :
    Ends P Any (debug source message) := by
  unfold debug
  refine .look fun m => ?_
  split
  · exact .bind h fun _ _ => .modify fun _ => rfl
  · exact .pure trivial

private theorem ends_text (hP : P .tooDeep) (v : Value) : Ends P Any (text v) := by
  unfold text
  refine .look fun m => ?_
  split
  · exact .pure trivial
  · exact .fail hP

private theorem ends_assign (env : Env) (ref : Ref) (v : Value) : Ends P Any (assign env ref v) := by
  obtain ⟨name, depth⟩ := ref
  cases depth with
  | some depth => exact .modifyStore _
  | none =>
    intro m
    rw [result_assign_none]
    cases env.find? (m.store.owns · name.text) with
    | some f => exact ⟨rfl, trivial⟩
    | none => exact ends_debug (.pure trivial) m

private theorem ends_setElement (hP : P .tooDeep) (a : ArrayId) (place v : Value) :
    Ends P Any (setElement a place v) := by
  unfold setElement
  refine .look fun m => ?_
  split
  · exact .modifyStore _
  · exact ends_debug (.bind (ends_text hP place) fun _ _ => .pure trivial)

private theorem ends_superclassOf (hP : P .tooDeep) (name : String) (v : Value) :
    Ends P Any (superclassOf name v) := by
  unfold superclassOf
  split
  · exact .look fun m => .pure trivial
  · refine .bind (ends_debug (.bind (ends_text hP _) fun _ _ => .pure trivial)) fun _ _ => ?_
    exact .pure trivial

private theorem ends_implement (env : Env) (name : String) (methods : List FunctionDecl) :
    Ends P Any (implement env name methods) := by
  rw [implement_eq]
  refine .bind (.onStore _) fun v _ => ?_
  cases v with
  | classRef c => exact .modifyStore _
  | _ => exact ends_debug (.pure trivial)

private theorem ends_element (v place : Value) : Ends P Any (element v place) := by
  unfold element
  split
  · exact .look fun m => .pure trivial
  · split
    · exact .pure trivial
    · exact .pure trivial
  · exact .pure trivial

private theorem ends_staticMethod (found : Option FoundMethod) (c : ClassId) : Ends P Any (staticMethod found c) := by
  unfold staticMethod
  split
  · exact .onStore _
  · exact .pure trivial
  · exact .pure trivial

private theorem ends_instanceMember (i : InstanceId) (name : String) : Ends P Any (instanceMember i name) := by
  unfold instanceMember
  refine .look fun m => ?_
  split
  · exact .onStore _
  · exact .pure trivial

private theorem ends_ofSuper (found : Option FoundMethod) (c : ClassId) (name : String) (self : Value) :
    Ends P Any (ofSuper found c name self) := by
  unfold ofSuper
  split
  · split
    · exact .onStore _
    · exact .pure trivial
    · exact .pure trivial
  · exact ends_staticMethod _ _

private theorem ends_member (env : Env) (viaSuper : Bool) (v : Value) (name : String) :
    Ends P Any (member env viaSuper v name) := by
  unfold member
  split
  · exact ends_instanceMember _ name
  · split
    · exact .look fun m => .bind (.onStore _) fun self _ => ends_ofSuper _ _ name self
    · exact .look fun m => ends_staticMethod _ _
  · exact .pure trivial

/-! ### Operators -/

private theorem ends_add {left right : Value} {pos : Pos} (h : ∀ l r, P (.type (.cannotAdd l r) pos)) :
    Ends P Any (add left right pos) := by
  unfold add
  split
  · exact .pure trivial
  · exact .pure trivial
  · exact .pure trivial
  · exact .pure trivial
  · exact .fail (h _ _)

private theorem ends_operand {op : BinaryOp} {pos : Pos} {v : Value}
    (h : ∀ got, P (.type (.notANumber op.symbol.text got) pos)) :
    Ends P Any (operand op pos v) := by
  unfold operand
  split
  · exact .pure trivial
  · exact .fail (h _)

private theorem ends_binary {op : BinaryOp} {pos : Pos} {v w : Value}
    (h : ∀ fault, op.Rejects fault → P (.type fault pos)) :
    Ends P Any (binary op pos v w) := by
  have hnumbers : (∀ got, op.Rejects (.notANumber op.symbol.text got)) → Ends P Any (do
      let x ← operand op pos v
      let y ← operand op pos w
      return arithmetic op x y) := by
    intro hop
    refine .bind (ends_operand fun got => h _ (hop got)) fun x _ => ?_
    exact .bind (ends_operand fun got => h _ (hop got)) fun y _ => .pure trivial
  cases op with
  | eq => exact .pure trivial
  | neq => exact .pure trivial
  | plus => exact ends_add fun l r => h _ ⟨l, r, rfl⟩
  | _ => exact hnumbers fun got => ⟨got, rfl⟩

private theorem ends_unary {op : UnaryOp} {pos : Pos} {v : Value}
    (h : op = .negate → ∀ got, P (.type (.cannotNegate got) pos)) :
    Ends P Any (unary op pos v) := by
  unfold unary
  split
  · exact .pure trivial
  · exact .pure trivial
  · exact .fail (h rfl _)

private theorem ends_assigned {op : AssignOp} {pos : Pos} {old : Run Value} {v : Value} (hold : Ends P Any old)
    (h : op.isCompound = true → ∀ l r, P (.type (.cannotAdd l r) pos)) : Ends P Any (assigned op pos old v) := by
  unfold assigned
  split
  · next hop => exact .bind hold fun w _ => ends_add (h hop)
  · exact .pure trivial

/-! ### Native functions -/

private theorem ends_arraySize {args : List Value}
    (h : ∀ x : Float, maxArraySize.toFloat < x → P (.arrayTooLarge (Number.text x))) :
    Ends P Any (arraySize args) := by
  unfold arraySize
  split
  · split
    · split
      · next hx => exact .fail (h _ hx)
      · exact .pure trivial
    · exact .pure trivial
  · exact .pure trivial

private theorem ends_native (hP : P .tooDeep)
    (h : ∀ x : Float, maxArraySize.toFloat < x → P (.arrayTooLarge (Number.text x)))
    (n : Native) (args : List Value) : Ends P Any (native n args) := by
  cases n with
  | clock => exact fun _ => ⟨rfl, trivial⟩
  | array => exact .bind (ends_arraySize h) fun size _ => .bind (.onStore _) fun a _ => .pure trivial
  | readLine =>
    rintro ⟨store, printed, written, input, clock, reads, log, fault⟩
    cases input with
    | nil => exact ⟨rfl, trivial⟩
    | cons line rest => exact ⟨rfl, trivial⟩
  | printLine =>
    have hwrite : ∀ line : String, Ends P Any (do
        modify fun m => { m with written := m.written ++ Text.expandBreaks line ++ "\n" }
        return Value.null) := fun line => .bind (.modify fun _ => rfl) fun _ _ => .pure trivial
    change Ends P Any (printLine args)
    unfold printLine
    split
    · exact hwrite ""
    · exact hwrite ""
    · exact .bind (ends_text hP _) fun line _ => hwrite line
  | int =>
    change Ends P Any (int args)
    unfold int
    split
    · split
      · split
        · exact .pure trivial
        · exact fun _ => ⟨rfl, trivial⟩
      · exact .pure trivial
    · exact .pure trivial
  | alloc c => exact fun _ => ⟨rfl, trivial⟩
  | init i => exact fun _ => ⟨rfl, trivial⟩

private theorem ends_builtin (b : Builtin) : Ends P Any (builtin b) := by
  rw [builtin_eq_handler]
  cases b with
  | arrayCount a => exact .look fun m => .pure trivial
  | arrayPop a => exact .look fun m => .bind (.modifyStore _) fun _ _ => .pure trivial
  | stringCount s => exact .pure trivial

/-! ### Evaluation -/

section Parts

variable {i : Interp} (hi : i.Ends P)
include hi

private theorem ends_evalAll (env : Env) (es : List Expr) : Ends P Any (evalAll i env es) := by
  induction es with
  | nil => exact .pure trivial
  | cons e rest ih => exact .bind (hi.eval env e) fun v _ => .bind ih fun vs _ => .pure trivial

private theorem ends_evalOption (env : Env) (o : Option Expr) : Ends P Any (evalOption i env o) := by
  cases o with
  | none => exact .pure trivial
  | some e => exact hi.eval env e

private theorem ends_holds (env : Env) (o : Option Expr) : Ends P Any (holds i env o) := by
  cases o with
  | none => exact .pure trivial
  | some e => exact .bind (hi.eval env e) fun _ _ => .pure trivial

private theorem ends_evalProperties (env : Env) (ds : List VarDecl) (b : Bindings Value) :
    Ends P Any (evalProperties i env ds b) := by
  induction ds generalizing b with
  | nil => exact .pure trivial
  | cons d rest ih =>
    obtain ⟨type, name, init⟩ := d
    cases init with
    | none => exact ih _
    | some e => exact .bind (hi.eval env e) fun v _ => ih _

/-- Statements give a value if one of them does. -/
private theorem ends_execAll (env : Env) (ts : List Stmt) :
    Ends P (fun o => o.isSome = true → ∃ t ∈ ts, t.Returns) (execAll i env ts) := by
  induction ts with
  | nil => exact .pure nofun
  | cons t rest ih =>
    refine .bind (hi.exec env t) fun o ho => ?_
    cases o with
    | some v => exact .pure fun _ => ⟨t, List.mem_cons_self, ho rfl⟩
    | none =>
      refine ih.weaken fun o h hsome => ?_
      obtain ⟨u, hu, hreturns⟩ := h hsome
      exact ⟨u, List.mem_cons_of_mem t hu, hreturns⟩

private theorem ends_invoke (params : List Param) (body : List Stmt) (env : Env) (args : List Value) :
    Ends P Any (invoke i params body env args) :=
  .bind (.onStore _) fun _ _ => .bind (ends_execAll hi _ body) fun _ _ => .pure trivial

private theorem ends_call (hP : P .tooDeep)
    (h : ∀ x : Float, maxArraySize.toFloat < x → P (.arrayTooLarge (Number.text x)))
    (callee : Value) (args : List Value) : Ends P Any (call i callee args) := by
  unfold call
  split
  · exact ends_invoke hi _ _ _ _
  · exact ends_invoke hi _ _ _ _
  · exact ends_native hP h _ _
  · exact .onStore _
  · exact ends_builtin _
  · exact .bind (ends_debug (.bind (ends_text hP _) fun _ _ => .pure trivial)) fun _ _ => .pure trivial

/-- A turn that ends the loop with a value has executed the body. -/
private theorem ends_turn (env : Env) (condition step : Option Expr) (body : Stmt) :
    Ends P (fun r => ∀ v, r = .done (some v) → body.Returns) (turn i env condition step body) := by
  unfold turn
  refine .bind (ends_holds hi env condition) fun b _ => ?_
  split
  · refine .bind (hi.exec env body) fun o ho => ?_
    cases o with
    | some v => exact .pure fun _ _ => ho rfl
    | none => exact .bind (ends_evalOption hi env step) fun _ _ => .pure nofun
  · exact .pure nofun

omit hi in
private theorem ends_loop {body : Stmt} {t : Run Turn}
    (ht : Ends P (fun r => ∀ v, r = .done (some v) → body.Returns) t)
    (n : Nat) : Ends P (fun o => o.isSome = true → body.Returns) (loop t n) := by
  induction n with
  | zero => exact fun _ => ⟨rfl, trivial⟩
  | succ n ih =>
    refine .bind ht fun r hr => ?_
    cases r with
    | again => exact ih
    | done result =>
      refine .pure fun hsome => ?_
      obtain ⟨v, rfl⟩ := Option.isSome_iff_exists.1 hsome
      exact hr v rfl

/-- An expression fails in the ways of its own node, or as its parts do. -/
private theorem ends_evalExpr (env : Env) (e : Expr) (he : ∀ f, (Node.expr e).Fails f → P f) :
    Ends P Any (evalExpr i env e) := by
  have hread : ∀ ref, Ends P Any (read env ref) := fun _ _ => ⟨rfl, trivial⟩
  cases e with
  | literal value => exact .pure trivial
  | «variable» ref => exact hread ref
  | selfRef ref => exact hread ref
  | superRef ref => exact hread ref
  | grouping inner => exact hi.eval env inner
  | unary op pos operand =>
    refine .bind (hi.eval env operand) fun v _ => ends_unary ?_
    rintro rfl got
    exact he _ (.type ⟨rfl, got, rfl⟩)
  | binary left op pos right =>
    refine .bind (hi.eval env left) fun l _ => .bind (hi.eval env right) fun r _ => ends_binary fun fault h => ?_
    exact he _ (.type ⟨rfl, h⟩)
  | logical left op right =>
    refine .bind (hi.eval env left) fun l _ => ?_
    dsimp only
    split
    · exact .pure trivial
    · exact .pure trivial
    · exact .bind (hi.eval env right) fun _ _ => .pure trivial
  | ternary condition yes no =>
    refine .bind (hi.eval env condition) fun c _ => ?_
    split
    · exact hi.eval env yes
    · exact hi.eval env no
  | assign target op pos value =>
    refine .bind (hi.eval env value) fun v _ => .bind (ends_assigned (hread target) fun hop l r => ?_) fun w _ => ?_
    · exact he _ (.type ⟨rfl, hop, l, r, rfl⟩)
    · exact .bind (ends_assign env target w) fun _ _ => .pure trivial
  | array items =>
    exact .bind (ends_evalAll hi env items) fun vs _ => .bind (.onStore _) fun a _ => .pure trivial
  | index object place =>
    exact .bind (hi.eval env object) fun v _ => .bind (hi.eval env place) fun p _ => ends_element v p
  | setIndex object place op pos value =>
    refine .bind (hi.eval env object) fun o _ => ?_
    split
    · refine .bind (hi.eval env place) fun p _ => .bind (hi.eval env value) fun v _ => ?_
      refine .bind (ends_assigned (ends_element _ p) fun hop l r => ?_) fun w _ => ?_
      · exact he _ (.type ⟨rfl, hop, l, r, rfl⟩)
      · exact .bind (ends_setElement (he _ .tooDeep) _ p w) fun _ _ => .pure trivial
    · exact .pure trivial
  | get object name => exact .bind (hi.eval env object) fun v _ => ends_member env _ v name.text
  | set object name op pos value =>
    refine .bind (hi.eval env object) fun o _ => ?_
    split
    · refine .bind (hi.eval env value) fun v _ => ?_
      refine .bind (ends_assigned (ends_instanceMember _ name.text) fun hop l r => ?_) fun w _ => ?_
      · exact he _ (.type ⟨rfl, hop, l, r, rfl⟩)
      · exact .bind (.modifyStore _) fun _ _ => .pure trivial
    · exact .pure trivial
  | call callee args =>
    refine .bind (hi.eval env callee) fun f _ => .bind (ends_evalAll hi env args) fun vs _ => ?_
    exact ends_call hi (he _ .tooDeep) (fun x hx => he _ (.arrayTooLarge hx)) f vs
  | block returns params body => exact .bind (.onStore _) fun env' _ => .pure trivial

omit hi in
private theorem ends_lineageOf (hP : P .tooDeep) (env : Env) (name : String) (superclass : Option Ref) :
    Ends P Any (lineageOf env name superclass) := by
  cases superclass with
  | none => exact .pure trivial
  | some ref =>
    have hread : Ends P Any (read env ref) := fun _ => ⟨rfl, trivial⟩
    exact .bind hread fun v _ => ends_superclassOf hP name v

private theorem ends_defineClass (env : Env) (name : String) (properties : List VarDecl) (lineage : List ClassId) :
    Ends P Any (defineClass i env name properties lineage) :=
  .bind (.modifyStore _) fun _ _ => .bind (ends_evalProperties hi env properties []) fun _ _ =>
    .bind (.onStore _) fun _ _ => .modifyStore _

/-- A statement fails in the ways of its own node, or as its parts do; and it gives a value only where a `return`
stands in it. -/
private theorem ends_execStmt (env : Env) (t : Stmt) (hP : P .tooDeep) :
    Ends P (fun o => o.isSome = true → t.Returns) (execStmt i env t) := by
  cases t with
  | block body =>
    refine .bind (.onStore _) fun frame _ => (ends_execAll hi (frame :: env) body).weaken fun o h hsome => ?_
    obtain ⟨u, hu, hreturns⟩ := h hsome
    exact .block hu hreturns
  | branch condition yes no =>
    refine .bind (hi.eval env condition) fun c _ => ?_
    split
    · exact (hi.exec env yes).weaken fun o h hsome => .yes (h hsome)
    · cases no with
      | none => exact .pure nofun
      | some no => exact (hi.exec env no).weaken fun o h hsome => .no (h hsome)
  | loop condition body =>
    exact (ends_loop (ends_turn hi env (some condition) none body) loopBound).weaken fun o h hsome => .loop (h hsome)
  | count init condition step body =>
    have hloop : Ends P (fun o => o.isSome = true → (Stmt.count init condition step body).Returns)
        (loop (turn i env condition step body) loopBound) :=
      (ends_loop (ends_turn hi env condition step body) loopBound).weaken fun o h hsome => .count (h hsome)
    cases init with
    | none => exact hloop
    | some s => exact .bind (hi.exec env s) fun _ _ => hloop
  | result value => exact .bind (ends_evalOption hi env value) fun v _ => .pure fun _ => .result value
  | expr e => exact .bind (hi.eval env e) fun _ _ => .pure nofun
  | var decl =>
    obtain ⟨type, name, init⟩ := decl
    exact .bind (ends_evalOption hi env init) fun v _ => .bind (.modifyStore _) fun _ _ => .pure nofun
  | function decl => exact .bind (.modifyStore _) fun _ _ => .pure nofun
  | print value =>
    refine .bind (hi.eval env value) fun v _ => ?_
    split
    · exact .bind (ends_text hP v) fun t _ => .bind (.modify fun _ => rfl) fun _ _ => .pure nofun
    · exact .pure nofun
  | classDef name superclass methods properties =>
    refine .bind (ends_lineageOf hP env name.text superclass) fun lineage _ => ?_
    exact .bind (ends_defineClass hi env name.text properties lineage) fun _ _ => .pure nofun
  | classImpl name methods => exact .bind (ends_implement env name.text methods) fun _ _ => .pure nofun
  | typeDef name type => exact .pure nofun

/-- A program fails as its statements do, or because one of them has a `return` outside of all bodies. -/
theorem ends_program (env : Env) (ts : List Stmt) (h : ∀ t ∈ ts, t.Returns → P .returnOutside) :
    Ends P Any (program i env ts) := by
  induction ts with
  | nil => exact .pure trivial
  | cons t rest ih =>
    obtain ⟨ht, hrest⟩ := List.forall_mem_cons.1 h
    refine .bind (hi.exec env t) fun o ho => ?_
    cases o with
    | some v => exact .fail (ht (ho rfl))
    | none => exact ih hrest

end Parts

end Run

/-- In a run that is stopped at a node which is not of the code, every failure is one of a node of the code. -/
theorem ends_watched {code : Node → Prop} {P : Fault → Prop} (hdeep : P .tooDeep)
    (hcode : ∀ n f, code n → n.Fails f → P f) (n : Nat) :
    (watched (fun _ node _ => code node) .unfinished n).Ends P := by
  induction n with
  | zero => exact ⟨fun _ _ => .fail hdeep, fun _ _ => .fail hdeep⟩
  | succ n ih =>
    constructor
    · intro env e
      exact .demand fun he => Run.ends_evalExpr ih env e fun f hf => hcode _ f he hf
    · intro env t
      exact .demand fun _ => Run.ends_execStmt ih env t hdeep

end ObjScript
