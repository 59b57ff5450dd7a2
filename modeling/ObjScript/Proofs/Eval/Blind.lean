import ObjScript.Proofs.Eval.Tame
import ObjScript.Proofs.Eval.Unlocated

/-!
# A run never looks at places

`Blind f t u` says that `t` and `u` come to the same from machines that differ in places alone: the value of `u` is
the one of `t` changed by `f`, which takes the places away, and a failure is the same but for its place.  It is proved
step by step and then, by induction on how deep nodes are nested, for `interp`.
-/

namespace ObjScript

namespace Run

variable {α β γ δ : Type}

/-- The outcome of a step without the places. -/
def outcome (f : α → β) : Except Stop α → Except Stop β
  | .ok a => .ok (f a)
  | .error e => .error e.unlocated

/-- The steps do the same, up to the places. -/
def Blind (f : α → β) (t : Run α) (u : Run β) : Prop :=
  ∀ m : Machine, u.result m.unlocated = (outcome f (t.result m).1, (t.result m).2.unlocated)

namespace Blind

variable {f : α → β} {h : γ → δ} {t : Run α} {u : Run β}

private theorem pure {a : α} {b : β} (hab : b = f a) : Blind f (Pure.pure a) (Pure.pure b) := by
  intro m
  rw [hab]
  rfl

private theorem throw {e e' : Stop} (he : e' = e.unlocated) : Blind f (throw e) (throw e') := by
  intro m
  rw [he]
  rfl

private theorem bind {k : α → Run γ} {l : β → Run δ} (ht : Blind f t u) (hk : ∀ a, Blind h (k a) (l (f a))) :
    Blind h (t >>= k) (u >>= l) := by
  intro m
  rw [result_bind, result_bind, ht m]
  cases hm : t.result m with
  | mk r m' =>
    cases r with
    | ok a => exact hk a m'
    | error e => rfl

/-- A step whose value has no place, followed by another one. -/
private theorem bindSame {t u : Run α} {k : α → Run γ} {l : α → Run δ} (ht : Blind id t u)
    (hk : ∀ a, Blind h (k a) (l a)) :
    Blind h (t >>= k) (u >>= l) :=
  ht.bind hk

private theorem ite {b b' : Bool} {A B : Run α} {A' B' : Run β} (hb : b' = b) (hA : Blind f A A')
    (hB : Blind f B B') :
    Blind f (if b = true then A else B) (if b' = true then A' else B') := by
  rw [hb]
  split
  · exact hA
  · exact hB

/-- A step that looks at the machine. -/
private theorem look {k : Machine → Run γ} {l : Machine → Run δ} (hk : ∀ m : Machine, Blind h (k m) (l m.unlocated)) :
    Blind h (get >>= k) (get >>= l) :=
  fun m => hk m m

private theorem modify {k l : Machine → Machine} (hk : ∀ m, l m.unlocated = (k m).unlocated) :
    Blind id (modify k) (modify l) :=
  fun m => congrArg (Prod.mk (Except.ok ())) (hk m)

/-- A step on the store. -/
private theorem onStore {t : WithStore α} {u : WithStore β} (ht : Store.Recodes .unlocated f t u) :
    Blind f (onStore t) (onStore u) := by
  intro m
  have hstore := ht m.store
  exact congrArg (fun x : β × Store => (Except.ok x.1, { m.unlocated with store := x.2 })) hstore

private theorem modifyStore {k l : Store → Store} (hk : ∀ s : Store, l s.unlocated = (k s).unlocated) :
    Blind id (modifyStore k) (modifyStore l) :=
  modify fun m => congrArg (fun store => { m.unlocated with store := store }) (hk m.store)

end Blind

variable {v w : Value}

private theorem blind_text : Blind id (text v) (text v.unlocated) := by
  unfold text
  refine .look fun m => ?_
  have htext : m.unlocated.store.text? v.unlocated = m.store.text? v := m.store.text?_recoded v
  rw [htext]
  cases m.store.text? v with
  | none => exact .throw rfl
  | some t => exact .pure rfl

private theorem blind_debug {source : LogSource} {t u : Run String} (h : Blind id t u) :
    Blind id (debug source t) (debug source u) := by
  unfold debug
  refine .look fun m => .ite rfl (h.bindSame fun message => .modify fun m => ?_) (.pure rfl)
  have hlog := m.log.unlocated_add ⟨.debug, source, message⟩
  exact congrArg (fun log => { m.unlocated with log := log }) hlog

/-! ### Operators -/

private theorem blind_add {pos : Pos} :
    Blind Value.unlocated (add v w pos) (add v.unlocated w.unlocated .nowhere) := by
  unfold add
  rw [addend_recoded, addend_recoded]
  generalize addend v = l
  generalize addend w = r
  cases l <;> cases r <;> first | exact .throw rfl | exact .pure rfl

private theorem blind_operand {op : BinaryOp} {pos : Pos} :
    Blind id (operand op pos v) (operand op .nowhere v.unlocated) := by
  cases v with
  | number x => exact .pure rfl
  | _ => exact .throw rfl

private theorem blind_binary {op : BinaryOp} {pos : Pos} :
    Blind Value.unlocated (binary op pos v w) (binary op .nowhere v.unlocated w.unlocated) := by
  have harithmetic : ∀ op, Blind Value.unlocated
      (operand op pos v >>= fun x => operand op pos w >>= fun y => Pure.pure (arithmetic op x y))
      (operand op .nowhere v.unlocated >>= fun x => operand op .nowhere w.unlocated >>= fun y =>
        Pure.pure (arithmetic op x y)) := by
    intro op
    refine blind_operand.bindSame fun x => blind_operand.bindSame fun y => .pure ?_
    cases op <;> rfl
  cases op with
  | plus => exact blind_add
  -- these two look at the values, but never into a tree
  | eq | neq =>
    unfold binary
    rw [Value.same_recoded]
    exact .pure rfl
  | _ => exact harithmetic _

private theorem blind_unary {op : UnaryOp} {pos : Pos} :
    Blind Value.unlocated (unary op pos v) (unary op .nowhere v.unlocated) := by
  cases op with
  | not => exact .pure (congrArg (fun b => Value.bool !b) v.isTrue_recoded)
  | negate =>
    cases v with
    | number x => exact .pure rfl
    | _ => exact .throw rfl

/-! ### Elements -/

section Elements

variable {a : ArrayId}

private theorem blind_element : Blind Value.unlocated (element v w) (element v.unlocated w.unlocated) := by
  cases v with
  | array a => exact .look fun m => .pure (elementOf_recoded m.store a)
  | string s =>
    change Blind _ _ (element (.string s) w.unlocated)
    unfold element
    dsimp only
    rw [place?_recoded]
    cases place? w s.length with
    | none => exact .pure rfl
    | some i =>
      dsimp only
      cases Text.charAt? s i <;> exact .pure rfl
  | _ => exact .pure rfl

private theorem blind_putElements {k l : Array Value → Array Value}
    (h : ∀ b, l (b.map Value.unlocated) = (k b).map Value.unlocated) :
    Blind id (modifyStore (·.putElements a k)) (modifyStore (·.putElements a l)) :=
  .modifyStore fun s => s.putElements_recoded a h

private theorem blind_setElement : Blind id (setElement a v w) (setElement a v.unlocated w.unlocated) := by
  unfold setElement
  refine .look fun m => ?_
  have hplace : place? v.unlocated (m.unlocated.store.elements a).size = place? v (m.store.elements a).size := by
    have hsize : (m.store.unlocated.elements a).size = (m.store.elements a).size := by
      rw [Store.elements_recoded, Array.size_map]
    exact place?_recoded.trans (congrArg (place? v) hsize)
  rw [hplace]
  cases place? v (m.store.elements a).size with
  | none => exact blind_debug (blind_text.bindSame fun _ => .pure rfl)
  | some i => exact blind_putElements fun b => Array.map_setIfInBounds.symm

end Elements

/-! ### Native functions -/

section Natives

variable {args : List Value}

private theorem blind_clock : Blind Value.unlocated clock clock :=
  fun _ => rfl

private theorem blind_arraySize : Blind id (arraySize args) (arraySize (args.map Value.unlocated)) := by
  cases args with
  | nil => exact .pure rfl
  | cons v args =>
    cases v with
    | number x =>
      change Blind id (arraySize (.number x :: args)) (arraySize (.number x :: args.map Value.unlocated))
      unfold arraySize
      dsimp only
      cases Number.truncate? x with
      | none => exact .pure rfl
      | some size =>
        dsimp only
        split
        · exact .throw rfl
        · exact .pure rfl
    | _ => exact .pure rfl

private theorem blind_newArray (values : Array Value) :
    Blind id (onStore (Store.newArray values)) (onStore (Store.newArray (values.map Value.unlocated))) :=
  .onStore (Store.recodes_newArray values)

private theorem blind_array : Blind Value.unlocated (array args) (array (args.map Value.unlocated)) := by
  refine blind_arraySize.bindSame fun size => ?_
  have hnew := blind_newArray (Array.replicate size .null)
  rw [Array.map_replicate] at hnew
  exact hnew.bindSame fun a => .pure rfl

private theorem blind_readLine : Blind Value.unlocated readLine readLine := by
  intro m
  obtain ⟨store, printed, written, input, clock, reads, log, fault⟩ := m
  cases input <;> rfl

private theorem blind_printLine : Blind Value.unlocated (printLine args) (printLine (args.map Value.unlocated)) := by
  have hwrite : ∀ line, Blind Value.unlocated
      (modify (fun m => { m with written := m.written ++ Text.expandBreaks line ++ "\n" }) >>= fun _ =>
        Pure.pure Value.null)
      (modify (fun m => { m with written := m.written ++ Text.expandBreaks line ++ "\n" }) >>= fun _ =>
        Pure.pure Value.null) :=
    fun line => Blind.bindSame (.modify fun _ => rfl) fun _ => .pure rfl
  cases args with
  | nil => exact hwrite ""
  | cons v args =>
    cases v with
    | null => exact hwrite ""
    | _ => exact blind_text.bindSame hwrite

private theorem blind_int : Blind Value.unlocated (int args) (int (args.map Value.unlocated)) := by
  cases args with
  | nil => exact .pure rfl
  | cons v args =>
    cases v with
    | string s =>
      refine .ite rfl ?_ (.pure rfl)
      cases Number.read? s with
      | none => exact .throw rfl
      | some x => exact .pure rfl
    | _ => exact .pure rfl

private theorem blind_allocate (c : ClassId) :
    Blind Value.unlocated (onStore (Store.allocate c)) (onStore (Store.allocate c)) :=
  .onStore (Store.recodes_allocate c)

private theorem blind_native {n : Native} :
    Blind Value.unlocated (native n args) (native n (args.map Value.unlocated)) := by
  cases n with
  | clock => exact blind_clock
  | array => exact blind_array
  | readLine => exact blind_readLine
  | printLine => exact blind_printLine
  | int => exact blind_int
  | alloc c => exact blind_allocate c
  | init i => exact .pure rfl

private theorem blind_builtin {b : Builtin} : Blind Value.unlocated (builtin b) (builtin b) := by
  rw [builtin_eq_handler]
  cases b with
  | arrayCount a =>
    refine .look fun m => .pure ?_
    have hsize : (m.unlocated.store.elements a).size = (m.store.elements a).size := by
      change (m.store.unlocated.elements a).size = _
      rw [Store.elements_recoded, Array.size_map]
    rw [hsize]
    rfl
  | arrayPop a =>
    refine .look fun m => ?_
    have hback : (m.unlocated.store.elements a).back? = (m.store.elements a).back?.map Value.unlocated := by
      change (m.store.unlocated.elements a).back? = _
      rw [Store.elements_recoded, Array.back?_map]
    refine (blind_putElements fun b => Array.map_pop.symm).bindSame fun _ => .pure ?_
    rw [hback]
    cases (m.store.elements a).back? <;> rfl
  | stringCount s => exact .pure rfl

end Natives

/-! ### Variables and members -/

section Members

variable {env : Env} {c : ClassId} {x : String}

private theorem blind_readName : Blind Value.unlocated (readName env x) (readName env x) :=
  .onStore (Store.recodes_read env x)

private theorem blind_read {ref : Ref} : Blind Value.unlocated (read env ref) (read env ref.unlocated) :=
  blind_readName

private theorem blind_define : Blind id (define env x v) (define env x v.unlocated) :=
  .modifyStore fun s => s.defineIn_recoded env x v

private theorem blind_assign {ref : Ref} : Blind id (assign env ref v) (assign env ref.unlocated v.unlocated) := by
  obtain ⟨name, depth⟩ := ref
  cases depth with
  | some depth => exact blind_define
  | none =>
    change Blind id (assign env ⟨name, none⟩ v) (assign env ⟨name.unlocated, none⟩ v.unlocated)
    unfold assign
    refine .look fun m => ?_
    have hassign : m.unlocated.store.assign? env name.text v.unlocated =
        (m.store.assign? env name.text v).map Store.unlocated := m.store.assign?_recoded env name.text v
    dsimp only
    rw [name.unlocated_text, hassign]
    cases m.store.assign? env name.text v with
    | some store => exact fun _ => rfl
    | none => exact blind_debug (.pure rfl)

private theorem blind_staticMethod {found : Option FoundMethod} : Blind Value.unlocated (staticMethod found c)
    (staticMethod (found.map (FoundMethod.recoded .unlocated)) c) := by
  cases found with
  | none => exact .pure rfl
  | some found =>
    obtain ⟨owner, method, superclass⟩ := found
    cases method with
    | closure f =>
      change Blind _ (onStore (Store.bindStatic f c)) (onStore (Store.bindStatic (f.recoded .unlocated) c))
      exact .onStore (Store.recodes_bindStatic f c)
    | alloc => exact .pure rfl

private theorem blind_classMember : Blind Value.unlocated (classMember c x) (classMember c x) := by
  refine .look fun m => ?_
  have hfound : m.unlocated.store.findMethod? Method.isStatic x (m.unlocated.store.line c) =
      (m.store.findMethod? Method.isStatic x (m.store.line c)).map (FoundMethod.recoded .unlocated) := by
    change m.store.unlocated.findMethod? _ x (m.store.unlocated.line c) = _
    rw [Store.line_recoded, Store.findMethod?_recoded _ _ Method.isStatic_recoded]
  dsimp only
  rw [hfound]
  exact blind_staticMethod

private theorem blind_superMethod :
    Blind (Option.map (FoundMethod.recoded .unlocated)) (superMethod c x) (superMethod c x) := by
  refine .look fun m => .pure ?_
  change m.store.unlocated.findMethod? _ x (m.store.unlocated.line c) = _
  rw [Store.line_recoded, Store.findMethod?_recoded _ _ fun _ => rfl]

private theorem blind_ofSuper {found : Option FoundMethod} {self : Value} :
    Blind Value.unlocated (ofSuper found c x self)
    (ofSuper (found.map (FoundMethod.recoded .unlocated)) c x self.unlocated) := by
  cases self with
  | object i =>
    cases found with
    | none => exact .pure (by split <;> rfl)
    | some found =>
      obtain ⟨owner, method, superclass⟩ := found
      cases method with
      | closure f => exact .onStore (Store.recodes_bindMethod f i superclass)
      | alloc => exact .pure rfl
  | _ => exact blind_staticMethod

private theorem blind_superMember : Blind Value.unlocated (superMember env c x) (superMember env c x) :=
  blind_superMethod.bind fun _ => blind_readName.bind fun _ => blind_ofSuper

private theorem blind_instanceMember {i : InstanceId} :
    Blind Value.unlocated (instanceMember i x) (instanceMember i x) := by
  refine .look fun m => ?_
  have hmember : m.unlocated.store.member? i x = (m.store.member? i x).map (Member.recoded .unlocated) :=
    m.store.member?_recoded i x
  rw [hmember]
  cases m.store.member? i x with
  | some member => exact .onStore (Store.recodes_memberValue member)
  | none => exact .pure rfl

private theorem blind_member {viaSuper : Bool} :
    Blind Value.unlocated (member env viaSuper v x) (member env viaSuper v.unlocated x) := by
  cases v with
  | object i => exact blind_instanceMember
  | classRef c => exact .ite rfl blind_superMember blind_classMember
  | _ => exact .pure (builtinMember_recoded x)

private theorem blind_putProperty {i : InstanceId} :
    Blind id (modifyStore (·.putProperty i x v)) (modifyStore (·.putProperty i x v.unlocated)) :=
  .modifyStore fun s => s.putProperty_recoded i x v

end Members

/-! ### Classes -/

section Classes

variable {env : Env} {x : String}

private theorem defaultValue_unlocated (type : TypeExpr) :
    defaultValue type.unlocated = (defaultValue type).unlocated := by
  refine Eq.trans ?_ (defaultValue_recoded type).symm
  cases type with
  | missing | block => rfl
  | named token =>
    obtain ⟨kind, text, pos⟩ := token
    cases kind with
    | classIdent =>
      by_cases hstring : text = "NSString"
      · rw [hstring]
        rfl
      · by_cases hinteger : text = "NSInteger"
        · rw [hinteger]
          rfl
        · simp [defaultValue, TypeExpr.unlocated, Token.unlocated, hstring, hinteger]
    | keyword k => cases k <;> rfl
    | _ => rfl

private theorem blind_superclassOf : Blind id (superclassOf x v) (superclassOf x v.unlocated) := by
  cases v with
  | classRef c =>
    refine .look fun m => .pure ?_
    exact m.store.line_recoded c
  | _ => exact (blind_debug (blind_text.bindSame fun _ => .pure rfl)).bindSame fun _ => .pure rfl

private theorem blind_makeClass {lineage : List ClassId} {properties : Bindings Value} :
    Blind id (makeClass env x lineage properties) (makeClass env x lineage (properties.mapAll Value.unlocated)) := by
  refine Blind.bindSame (.onStore (Store.recodes_newClass x lineage properties)) fun c => .modifyStore fun s => ?_
  have hassign : s.unlocated.assign? env x (.classRef c) = (s.assign? env x (.classRef c)).map Store.unlocated :=
    s.assign?_recoded env x (.classRef c)
  rw [hassign]
  cases s.assign? env x (.classRef c) <;> rfl

private theorem methodTable_unlocated (methods : List FunctionDecl) :
    methodTable env (methods.map FunctionDecl.unlocated) =
      (methodTable env methods).mapAll (Method.recoded .unlocated) := by
  unfold methodTable
  rw [← Bindings.putAll_mapAll]
  apply congrArg (Bindings.putAll [])
  unfold Bindings.mapAll
  rw [List.map_map, List.map_map]
  refine List.map_congr_left fun d _ => Prod.ext ?_ rfl
  exact Recoding.unlocated.name_text d

private theorem blind_implement {methods : List FunctionDecl} :
    Blind id (implement env x methods) (implement env x (methods.map FunctionDecl.unlocated)) := by
  rw [implement_eq, implement_eq, methodTable_unlocated]
  refine blind_readName.bind fun v => ?_
  cases v with
  | classRef c => exact .modifyStore fun s => s.putMethods_recoded c _
  | _ => exact blind_debug (.pure rfl)

end Classes

end Run

/-- Neither evaluator looks at places. -/
structure Interp.Blind (i : Interp) : Prop where
  eval : ∀ env e, Run.Blind Value.unlocated (i.eval env e) (i.eval env e.unlocated)
  exec : ∀ env t, Run.Blind (Option.map Value.unlocated) (i.exec env t) (i.exec env t.unlocated)

namespace Run

variable {i : Interp} {env : Env} {v w : Value}

/-! ### Expressions -/

private theorem blind_evalAll (hi : i.Blind) (l : List Expr) :
    Blind (List.map Value.unlocated) (evalAll i env l) (evalAll i env (l.map Expr.unlocated)) := by
  induction l with
  | nil => exact .pure rfl
  | cons e rest ih => exact (hi.eval env e).bind fun v => ih.bind fun vs => .pure rfl

private theorem blind_execAll (hi : i.Blind) (env : Env) (l : List Stmt) :
    Blind (Option.map Value.unlocated) (execAll i env l) (execAll i env (l.map Stmt.unlocated)) := by
  induction l with
  | nil => exact .pure rfl
  | cons t rest ih =>
    refine (hi.exec env t).bind fun o => ?_
    cases o with
    | some v => exact .pure rfl
    | none => exact ih

private theorem paramNames_unlocated (params : List Param) :
    (params.map Param.unlocated).map (·.name.text) = params.map (·.name.text) := by
  rw [List.map_map]
  rfl

private theorem blind_invoke (hi : i.Blind) (env : Env) (params : List Param) (body : List Stmt) (args : List Value) :
    Blind Value.unlocated (invoke i params body env args)
      (invoke i (params.map Param.unlocated) (body.map Stmt.unlocated) env (args.map Value.unlocated)) := by
  have hframe := Store.recodes_newFrame (r := .unlocated) ⟨bindParams params args [], none⟩
  have hbindings : Frame.recoded .unlocated ⟨bindParams params args [], none⟩ =
      ⟨bindParams (params.map Param.unlocated) (args.map Value.unlocated) [], none⟩ :=
    congrArg (Frame.mk · none) (bindParams_recoded (paramNames_unlocated params) args []).symm
  rw [hbindings] at hframe
  refine Blind.bindSame (.onStore hframe) fun frame => (blind_execAll hi _ body).bind fun o => .pure ?_
  cases o <;> rfl

private theorem blind_call (hi : i.Blind) (callee : Value) (args : List Value) :
    Blind Value.unlocated (call i callee args) (call i callee.unlocated (args.map Value.unlocated)) := by
  have hother : ∀ v : Value, Blind Value.unlocated
      (debug .calls (do return "call of non-callable " ++ (← text v) ++ " ignored") >>= fun _ => Pure.pure Value.null)
      (debug .calls (do return "call of non-callable " ++ (← text v.unlocated) ++ " ignored") >>= fun _ =>
        Pure.pure Value.null) :=
    fun v => (blind_debug (blind_text.bindSame fun _ => .pure rfl)).bindSame fun _ => .pure rfl
  cases callee with
  | function f =>
    obtain ⟨⟨name, params, body, isStatic⟩, env⟩ := f
    have hinvoke := blind_invoke hi env params body args
    rw [← Stmt.unlocatedList_eq] at hinvoke
    exact hinvoke
  | block b => exact blind_invoke hi b.env b.params b.body args
  | native n => exact blind_native
  | classRef c => exact blind_allocate c
  | builtin b => exact blind_builtin
  | _ => exact hother _

private theorem blind_assigned {op : AssignOp} {pos : Pos} {old old' : Run Value}
    (hold : Blind Value.unlocated old old') :
    Blind Value.unlocated (assigned op pos old v) (assigned op .nowhere old' v.unlocated) :=
  .ite rfl (hold.bind fun _ => blind_add) (.pure rfl)

private theorem isSuper_unlocated (e : Expr) : isSuper e.unlocated = isSuper e := by
  cases e <;> rfl

private theorem blind_evalExpr (hi : i.Blind) (env : Env) (e : Expr) :
    Blind Value.unlocated (evalExpr i env e) (evalExpr i env e.unlocated) := by
  cases e with
  | literal value => exact .pure (by cases value <;> rfl)
  | «variable» ref | selfRef ref | superRef ref => exact blind_read
  | grouping inner => exact hi.eval env inner
  | unary op pos operand => exact (hi.eval env operand).bind fun v => blind_unary
  | binary left op pos right => exact (hi.eval env left).bind fun l => (hi.eval env right).bind fun r => blind_binary
  | logical left op right =>
    refine (hi.eval env left).bind fun l => ?_
    have hright : Blind Value.unlocated (i.eval env right >>= fun v => Pure.pure (Value.bool v.isTrue))
        (i.eval env right.unlocated >>= fun v => Pure.pure (Value.bool v.isTrue)) :=
      (hi.eval env right).bind fun v => .pure (congrArg Value.bool v.isTrue_recoded)
    -- whether the right operand is evaluated depends on the truth of the left one alone
    rw [l.isTrue_recoded]
    cases op <;> cases l.isTrue <;> first | exact hright | exact .pure rfl
  | ternary condition yes no =>
    exact (hi.eval env condition).bind fun v => .ite v.isTrue_recoded (hi.eval env yes) (hi.eval env no)
  | assign target op pos value =>
    refine (hi.eval env value).bind fun v => (blind_assigned blind_read).bind fun v => ?_
    exact blind_assign.bindSame fun _ => .pure rfl
  | array items =>
    rw [Expr.unlocated, Expr.unlocatedList_eq]
    refine (blind_evalAll hi items).bind fun values => ?_
    -- nulls are left out of an array, and what is null stays so
    have hkept : (values.map Value.unlocated).filter (fun v => !v.isNull) =
        (values.filter fun v => !v.isNull).map Value.unlocated := by
      rw [List.filter_map]
      exact congrArg (fun p => (values.filter p).map Value.unlocated)
        (funext fun v => congrArg not v.isNull_recoded)
    have hnew := blind_newArray (values.filter fun v => !v.isNull).toArray
    rw [List.map_toArray, ← hkept] at hnew
    exact hnew.bindSame fun a => .pure rfl
  | index object place => exact (hi.eval env object).bind fun v => (hi.eval env place).bind fun p => blind_element
  | setIndex object place op pos value =>
    refine (hi.eval env object).bind fun v => ?_
    cases v with
    | array a =>
      refine (hi.eval env place).bind fun p => (hi.eval env value).bind fun v => ?_
      refine (blind_assigned (blind_element (v := .array a))).bind fun v => ?_
      exact blind_setElement.bindSame fun _ => .pure rfl
    | _ => exact .pure rfl
  | get object name =>
    refine (hi.eval env object).bind fun v => ?_
    rw [isSuper_unlocated]
    exact blind_member
  | set object name op pos value =>
    refine (hi.eval env object).bind fun v => ?_
    cases v with
    | object o =>
      refine (hi.eval env value).bind fun v => (blind_assigned blind_instanceMember).bind fun v => ?_
      exact blind_putProperty.bindSame fun _ => .pure rfl
    | _ => exact .pure rfl
  | call callee args =>
    rw [Expr.unlocated, Expr.unlocatedList_eq]
    exact (hi.eval env callee).bind fun f => (blind_evalAll hi args).bind fun vs => blind_call hi f vs
  | block returns params body =>
    rw [Expr.unlocated, Stmt.unlocatedList_eq]
    exact Blind.bindSame (.onStore (Store.recodes_snapshot _ env)) fun captured => .pure rfl

/-! ### Statements -/

private theorem blind_evalOption (hi : i.Blind) (o : Option Expr) :
    Blind Value.unlocated (evalOption i env o) (evalOption i env (o.map Expr.unlocated)) := by
  cases o with
  | none => exact .pure rfl
  | some e => exact hi.eval env e

private theorem blind_holds (hi : i.Blind) (o : Option Expr) :
    Blind id (holds i env o) (holds i env (o.map Expr.unlocated)) := by
  cases o with
  | none => exact .pure rfl
  | some e => exact (hi.eval env e).bind fun v => .pure v.isTrue_recoded

/-- What a turn of a loop leads to, without the places. -/
def Turn.unlocated : Turn → Turn
  | .again => .again
  | .done result => .done (result.map Value.unlocated)

private theorem blind_turn (hi : i.Blind) (env : Env) (condition step : Option Expr) (body : Stmt) :
    Blind Turn.unlocated (turn i env condition step body)
      (turn i env (condition.map Expr.unlocated) (step.map Expr.unlocated) body.unlocated) := by
  refine (blind_holds hi condition).bindSame fun b => .ite rfl ((hi.exec env body).bind fun o => ?_) (.pure rfl)
  cases o with
  | some v => exact .pure rfl
  | none => exact (blind_evalOption hi step).bind fun _ => .pure rfl

private theorem blind_loop {t u : Run Turn} (ht : Blind Turn.unlocated t u) (n : Nat) :
    Blind (Option.map Value.unlocated) (loop t n) (loop u n) := by
  induction n with
  | zero => exact .throw rfl
  | succ n ih =>
    refine ht.bind fun a => ?_
    cases a with
    | again => exact ih
    | done result => exact .pure rfl

private theorem blind_evalProperties (hi : i.Blind) (l : List VarDecl) (b : Bindings Value) :
    Blind (Bindings.mapAll Value.unlocated) (evalProperties i env l b)
      (evalProperties i env (l.map VarDecl.unlocated) (b.mapAll Value.unlocated)) := by
  induction l generalizing b with
  | nil => exact .pure rfl
  | cons d rest ih =>
    obtain ⟨type, name, init⟩ := d
    have tail : ∀ v : Value, Blind (Bindings.mapAll Value.unlocated) (evalProperties i env rest (b.put name.text v))
        (evalProperties i env (rest.map VarDecl.unlocated)
          ((b.mapAll Value.unlocated).put name.text v.unlocated)) := by
      intro v
      rw [Bindings.put_mapAll]
      exact ih _
    cases init with
    | some e => exact (hi.eval env e).bind tail
    | none =>
      have hdefault := tail (defaultValue type)
      rw [← defaultValue_unlocated] at hdefault
      exact hdefault

/-- The superclass is known by its number, whatever the value that named it. -/
private theorem blind_lineageOf {name : String} {superclass : Option Ref} :
    Blind id (lineageOf env name superclass) (lineageOf env name (superclass.map Ref.unlocated)) := by
  cases superclass with
  | none => exact .pure rfl
  | some ref => exact blind_read.bind fun v => blind_superclassOf

private theorem blind_defineClass (hi : i.Blind) {name : String} (properties : List VarDecl)
    (lineage : List ClassId) :
    Blind id (defineClass i env name properties lineage)
      (defineClass i env name (properties.map VarDecl.unlocated) lineage) :=
  (blind_define (v := .null)).bindSame fun _ => (blind_evalProperties hi properties []).bind fun _ => blind_makeClass

private theorem blind_execStmt (hi : i.Blind) (env : Env) (t : Stmt) :
    Blind (Option.map Value.unlocated) (execStmt i env t) (execStmt i env t.unlocated) := by
  cases t with
  | block body =>
    rw [Stmt.unlocated, Stmt.unlocatedList_eq]
    exact Blind.bindSame (.onStore (Store.recodes_newFrame ⟨[], none⟩)) fun frame => blind_execAll hi _ body
  | branch condition yes no =>
    refine (hi.eval env condition).bind fun v => .ite v.isTrue_recoded (hi.exec env yes) ?_
    cases no with
    | some s => exact hi.exec env s
    | none => exact .pure rfl
  | loop condition body => exact blind_loop (blind_turn hi env (some condition) none body) loopBound
  | count init condition step body =>
    have hloop := blind_loop (blind_turn hi env condition step body) loopBound
    rw [Stmt.unlocated, Expr.unlocatedOption_eq, Expr.unlocatedOption_eq]
    cases init with
    | some s => exact (hi.exec env s).bind fun _ => hloop
    | none => exact hloop
  | result value =>
    rw [Stmt.unlocated, Expr.unlocatedOption_eq]
    exact (blind_evalOption hi value).bind fun v => .pure rfl
  | expr e => exact (hi.eval env e).bind fun _ => .pure rfl
  | var decl =>
    obtain ⟨type, name, init⟩ := decl
    rw [Stmt.unlocated, VarDecl.unlocated, Expr.unlocatedOption_eq]
    exact (blind_evalOption hi init).bind fun v => blind_define.bindSame fun _ => .pure rfl
  | function decl =>
    obtain ⟨name, params, body, isStatic⟩ := decl
    exact (blind_define (v := .function ⟨⟨name, params, body, isStatic⟩, env⟩)).bindSame fun _ => .pure rfl
  | print value =>
    refine (hi.eval env value).bind fun v => ?_
    have hprint : Blind (Option.map Value.unlocated)
        (text v >>= fun t => modify (fun m => { m with printed := m.printed ++ t ++ "\n" }) >>= fun _ =>
          Pure.pure (none : Option Value))
        (text v.unlocated >>= fun t => modify (fun m => { m with printed := m.printed ++ t ++ "\n" }) >>= fun _ =>
          Pure.pure none) :=
      blind_text.bindSame fun t => Blind.bindSame (.modify fun _ => rfl) fun _ => .pure rfl
    exact .ite (congrArg not v.isNull_recoded) hprint (.pure rfl)
  | classDef name superclass methods properties =>
    rw [Stmt.unlocated, VarDecl.unlocatedList_eq]
    exact blind_lineageOf.bindSame fun lineage => (blind_defineClass hi properties lineage).bindSame fun _ =>
      .pure rfl
  | classImpl name methods =>
    rw [Stmt.unlocated, FunctionDecl.unlocatedList_eq]
    exact blind_implement.bindSame fun _ => .pure rfl
  | typeDef name type => exact .pure rfl

theorem blind_program (hi : i.Blind) (env : Env) (l : List Stmt) :
    Blind id (program i env l) (program i env (l.map Stmt.unlocated)) := by
  induction l with
  | nil => exact .pure rfl
  | cons t rest ih =>
    refine (hi.exec env t).bind fun o => ?_
    cases o with
    | some v => exact .throw rfl
    | none => exact ih

end Run

theorem interp_blind (n : Nat) : (interp n).Blind := by
  induction n with
  | zero => exact ⟨fun _ _ => .throw rfl, fun _ _ => .throw rfl⟩
  | succ n ih => exact ⟨Run.blind_evalExpr ih, Run.blind_execStmt ih⟩

end ObjScript
