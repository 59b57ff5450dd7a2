import ObjScript.Proofs.Eval.Recoded
import ObjScript.Proofs.Store.Depths
import ObjScript.Proofs.Store.Values

/-!
# Steps that leave the frames alone

`Tame P M g f Q t u` says what the steps `t` and `u` have in common: on two machines that differ in the
depths of their trees alone they come to the same result, `f` of the one being the other, and leave two
such machines behind; `t` leaves the frames as they are, all values of the store keep the property `P` and
the methods the property `M`, and a result has the property `Q`.

Operators, elements of arrays, native functions and messages of the log are tame.
-/

namespace ObjScript.Run

variable {α β γ δ : Type} {P : Value → Prop} {M : Method → Prop} {g : Option Nat → Option Nat}

/-- The result of a step, and the machine after it. -/
def result (step : Run α) (m : Machine) : Except Stop α × Machine :=
  step.run.run m

theorem result_bind (t : Run α) (k : α → Run β) (m : Machine) :
    (t >>= k).result m = match t.result m with
      | (.ok a, m') => (k a).result m'
      | (.error e, m') => (.error e, m') := by
  change ((t.run.run m).1 |> fun r => ((ExceptT.bindCont k r).run (t.run.run m).2)) = _
  unfold result
  generalize t.run.run m = x
  obtain ⟨r, m'⟩ := x
  cases r <;> rfl

theorem result_get_bind (k : Machine → Run β) (m : Machine) : (get >>= k).result m = (k m).result m := rfl

/-- The steps do the same, up to the depths in all trees, without a change of the frames. -/
def Tame (P : Value → Prop) (M : Method → Prop) (g : Option Nat → Option Nat) (f : α → β) (Q : α → Prop)
    (t : Run α) (u : Run β) : Prop :=
  ∀ m : Machine, m.store.Holds P M → ∃ r m', t.result m = (r, m') ∧
    u.result (m.withDepths g) = (r.map f, m'.withDepths g) ∧ m'.store.frames = m.store.frames ∧
    m'.store.Holds P M ∧ ∀ a, r = .ok a → Q a

namespace Tame

variable {f : α → β} {h : γ → δ} {Q : α → Prop} {R : γ → Prop}

theorem pure {a : α} (ha : Q a) : Tame P M g f Q (pure a) (pure (f a)) := by
  intro m hm
  exact ⟨.ok a, m, rfl, rfl, rfl, hm, fun b hb => Except.ok.inj hb ▸ ha⟩

private theorem throw (e : Stop) : Tame P M g f Q (throw e) (throw e) := by
  intro m hm
  exact ⟨.error e, m, rfl, rfl, rfl, hm, nofun⟩

theorem bind {t : Run α} {u : Run β} {k : α → Run γ} {l : β → Run δ} (ht : Tame P M g f Q t u)
    (hk : ∀ a, Q a → Tame P M g h R (k a) (l (f a))) : Tame P M g h R (t >>= k) (u >>= l) := by
  intro m hm
  obtain ⟨r, m₁, ht₁, hu₁, hframes₁, hm₁, hr⟩ := ht m hm
  rw [result_bind, result_bind, ht₁, hu₁]
  cases r with
  | error e => exact ⟨.error e, m₁, rfl, rfl, hframes₁, hm₁, nofun⟩
  | ok a =>
    obtain ⟨r, m₂, ht₂, hu₂, hframes₂, hm₂, hr₂⟩ := hk a (hr a rfl) m₁ hm₁
    exact ⟨r, m₂, ht₂, hu₂, hframes₂.trans hframes₁, hm₂, hr₂⟩

/-- A step that looks at the machine. -/
private theorem look {k : Machine → Run γ} {l : Machine → Run δ}
    (hk : ∀ m : Machine, m.store.Holds P M → Tame P M g h R (k m) (l (m.withDepths g))) :
    Tame P M g h R (get >>= k) (get >>= l) :=
  fun m hm => hk m hm m hm

/-- A step that changes no frame, no value and no method. -/
theorem modify {k : Machine → Machine} {l : Machine → Machine} (hk : ∀ m, l (m.withDepths g) = (k m).withDepths g)
    (hframes : ∀ m, (k m).store.frames = m.store.frames)
    (hstore : ∀ m, m.store.Holds P M → (k m).store.Holds P M) :
    Tame P M g id (fun _ => True) (modify k) (modify l) :=
  fun m hm => ⟨.ok (), k m, rfl, congrArg (Prod.mk _) (hk m), hframes m, hstore m hm, fun _ _ => trivial⟩

/-- A step on the store. -/
private theorem onStore {t : WithStore α} {u : WithStore β}
    (ht : ∀ s : Store, s.Holds P M → u.run (s.withDepths g) = (f (t.run s).1, (t.run s).2.withDepths g) ∧
      (t.run s).2.frames = s.frames ∧ (t.run s).2.Holds P M ∧ Q (t.run s).1) :
    Tame P M g f Q (onStore t) (onStore u) := by
  intro m hm
  obtain ⟨hu, hframes, hstore, ha⟩ := ht m.store hm
  refine ⟨.ok (t.run m.store).1, { m with store := (t.run m.store).2 }, rfl, ?_, hframes, hstore,
    fun a h => Except.ok.inj h ▸ ha⟩
  change (Except.ok (u.run (m.store.withDepths g)).1,
    ({ m with store := (u.run (m.store.withDepths g)).2 } : Machine)) = _
  rw [hu]
  rfl

end Tame

variable {v w : Value}

theorem tame_text : Tame P M g id (fun _ => True) (text v) (text (v.withDepths g)) := by
  unfold text
  refine .look fun m _ => ?_
  have htext : (m.withDepths g).store.text? (v.withDepths g) = m.store.text? v := Store.text?_withDepths m.store v
  rw [htext]
  cases m.store.text? v with
  | none => exact .throw _
  | some t => exact .pure trivial

theorem tame_debug {source : LogSource} {t u : Run String} (h : Tame P M g id (fun _ => True) t u) :
    Tame P M g id (fun _ => True) (debug source t) (debug source u) := by
  unfold debug
  refine .look fun m _ => ?_
  change Tame _ _ _ _ _ _ (if m.log.keeps .debug = true then _ else _)
  split
  · refine .bind h fun s _ => ?_
    exact .modify (fun _ => rfl) (fun _ => rfl) (fun _ hm => hm)
  · exact .pure trivial

@[simp] theorem addend_withDepths : addend (v.withDepths g) = (addend v).withDepths g :=
  addend_recoded (r := .depths g)

section Operators

variable (hP : HoldsOfPlain P)

include hP

theorem tame_add {pos : Pos} :
    Tame P M g (Value.withDepths g) P (add v w pos) (add (v.withDepths g) (w.withDepths g) pos) := by
  unfold add
  rw [addend_withDepths, addend_withDepths]
  generalize addend v = l
  generalize addend w = r
  cases l <;> cases r <;> first | exact .throw _ | exact .pure (f := Value.withDepths g) (hP _ trivial)

omit hP in
private theorem tame_operand {op : BinaryOp} {pos : Pos} :
    Tame P M g id (fun _ => True) (operand op pos v) (operand op pos (v.withDepths g)) := by
  cases v with
  | number x => exact .pure trivial
  | _ => exact .throw _

theorem tame_binary {op : BinaryOp} {pos : Pos} :
    Tame P M g (Value.withDepths g) P (binary op pos v w) (binary op pos (v.withDepths g) (w.withDepths g)) := by
  have harithmetic : ∀ op, Tame P M g (Value.withDepths g) P
      (operand op pos v >>= fun x => operand op pos w >>= fun y => Pure.pure (arithmetic op x y))
      (operand op pos (v.withDepths g) >>= fun x => operand op pos (w.withDepths g) >>= fun y =>
        Pure.pure (arithmetic op x y)) := by
    intro op
    refine .bind tame_operand fun x _ => .bind tame_operand fun y _ => ?_
    cases op <;> exact .pure (f := Value.withDepths g) (hP _ trivial)
  cases op with
  | plus => exact tame_add hP
  | eq | neq =>
    unfold binary
    rw [Value.same_withDepths]
    exact .pure (f := Value.withDepths g) (hP _ trivial)
  | _ => exact harithmetic _

theorem tame_unary {op : UnaryOp} {pos : Pos} :
    Tame P M g (Value.withDepths g) P (unary op pos v) (unary op pos (v.withDepths g)) := by
  cases op with
  | not =>
    change Tame _ _ _ _ _ (Pure.pure (Value.bool !v.isTrue))
      (Pure.pure (Value.bool !(v.withDepths g).isTrue))
    rw [Value.isTrue_withDepths]
    exact .pure (f := Value.withDepths g) (hP _ trivial)
  | negate =>
    cases v with
    | number x => exact .pure (f := Value.withDepths g) (hP _ trivial)
    | _ => exact .throw _

end Operators

section Elements

variable {a : ArrayId}

@[simp] theorem place?_withDepths {size : Nat} : place? (v.withDepths g) size = place? v size :=
  place?_recoded (r := .depths g)

private theorem elementOf_withDepths (s : Store) :
    elementOf (s.withDepths g) a (v.withDepths g) = (elementOf s a v).withDepths g :=
  elementOf_recoded (r := .depths g) s a

private theorem holds_elementOf {s : Store} (hP : HoldsOfPlain P) (hs : s.Holds P M) : P (elementOf s a v) := by
  have hnull : P .null := hP _ trivial
  simp only [elementOf]
  cases place? v (s.elements a).size with
  | none => exact hnull
  | some i => exact getD_of_forall (hs.elements a) hnull i

theorem tame_element (hP : HoldsOfPlain P) :
    Tame P M g (Value.withDepths g) P (element v w) (element (v.withDepths g) (w.withDepths g)) := by
  cases v with
  | array a =>
    refine .look fun m hm => ?_
    have helement := elementOf_withDepths (g := g) (a := a) (v := w) m.store
    change Tame _ _ _ _ _ _ (Pure.pure (elementOf (m.store.withDepths g) a (w.withDepths g)))
    rw [helement]
    exact .pure (holds_elementOf hP hm)
  | string s =>
    change Tame _ _ _ _ _ _ (element (.string s) (w.withDepths g))
    unfold element
    dsimp only
    rw [place?_withDepths]
    cases place? w s.length with
    | none => exact .pure (f := Value.withDepths g) (hP _ trivial)
    | some i =>
      dsimp only
      cases Text.charAt? s i <;> exact .pure (f := Value.withDepths g) (hP _ trivial)
  | _ => exact .pure (f := Value.withDepths g) (hP _ trivial)

theorem tame_setElement (hw : P w) :
    Tame P M g id (fun _ => True) (setElement a v w) (setElement a (v.withDepths g) (w.withDepths g)) := by
  unfold setElement
  refine .look fun m hm => ?_
  have hplace : place? (v.withDepths g) ((m.withDepths g).store.elements a).size =
      place? v (m.store.elements a).size := by
    rw [place?_withDepths]
    change place? v ((m.store.withDepths g).elements a).size = _
    rw [Store.elements_withDepths, Array.size_map]
  rw [hplace]
  cases place? v (m.store.elements a).size with
  | none => exact tame_debug (.bind tame_text fun _ _ => .pure trivial)
  | some i =>
    refine .modify (fun m => ?_) (fun _ => rfl) (fun m hm => hm.putElements a fun b hb x hx => ?_)
    · exact congrArg (fun store => { m with store := store })
        (Store.putElements_withDepths m.store a (f := (·.setIfInBounds i w))
          (l := (·.setIfInBounds i (w.withDepths g))) fun b => Array.map_setIfInBounds.symm)
    · rcases Array.mem_or_eq_of_mem_setIfInBounds hx with hx | rfl
      · exact hb x hx
      · exact hw

end Elements

section Natives

theorem tame_newArray {values : Array Value} (hv : ∀ v ∈ values, P v) :
    Tame P M g id (fun _ => True) (onStore (Store.newArray values))
      (onStore (Store.newArray (values.map (Value.withDepths g)))) := by
  exact .onStore fun s hs => ⟨Store.recodes_newArray (r := .depths g) values s, rfl, hs.pushArray hv, trivial⟩

theorem tame_allocate (hP : HoldsOfPlain P) (c : ClassId) :
    Tame P M g (Value.withDepths g) P (onStore (Store.allocate c)) (onStore (Store.allocate c)) := by
  exact .onStore fun s hs => ⟨Store.recodes_allocate (r := .depths g) c s, rfl,
    hs.pushInstance (hs.initialProperties _), hP _ trivial⟩

theorem tame_putProperty {i : InstanceId} {x : String} (hv : P v) :
    Tame P M g id (fun _ => True) (modifyStore (·.putProperty i x v))
      (modifyStore (·.putProperty i x (v.withDepths g))) := by
  refine .modify (fun m => ?_) (fun _ => rfl) (fun m hm => hm.putProperty hv i x)
  exact congrArg (fun store => { m with store := store }) (Store.putProperty_withDepths m.store i x v)

variable (hP : HoldsOfPlain P) {args : List Value}

include hP

private theorem tame_clock : Tame P M g (Value.withDepths g) P clock clock :=
  fun m hm => ⟨.ok (.number (m.clock m.clockReads)), { m with clockReads := m.clockReads + 1 }, rfl, rfl, rfl, hm,
    fun _ h => Except.ok.inj h ▸ hP _ trivial⟩

private theorem tame_readLine : Tame P M g (Value.withDepths g) P readLine readLine := by
  intro m hm
  obtain ⟨store, printed, written, input, clock, reads, log, fault⟩ := m
  cases input with
  | nil => exact ⟨.ok .null, _, rfl, rfl, rfl, hm, fun _ h => Except.ok.inj h ▸ hP _ trivial⟩
  | cons line rest =>
    exact ⟨.ok (.string line), _, rfl, rfl, rfl, hm, fun _ h => Except.ok.inj h ▸ hP _ trivial⟩

omit hP in
private theorem tame_arraySize :
    Tame P M g id (fun _ => True) (arraySize args) (arraySize (args.map (Value.withDepths g))) := by
  cases args with
  | nil => exact .pure trivial
  | cons v args =>
    cases v with
    | number x =>
      unfold arraySize
      dsimp only [List.map, Value.withDepths]
      cases Number.truncate? x with
      | none => exact .pure trivial
      | some size =>
        dsimp only
        split
        · exact .throw _
        · exact .pure trivial
    | _ => exact .pure trivial

private theorem tame_array :
    Tame P M g (Value.withDepths g) P (array args) (array (args.map (Value.withDepths g))) := by
  unfold array
  refine .bind tame_arraySize fun size _ => ?_
  have hnull : ∀ v ∈ Array.replicate size Value.null, P v := by
    intro v hv
    rw [Array.eq_of_mem_replicate hv]
    exact hP _ trivial
  have hnew := tame_newArray (M := M) (g := g) hnull
  rw [Array.map_replicate] at hnew
  exact .bind hnew fun a _ => .pure (f := Value.withDepths g) (hP _ trivial)

private theorem tame_printLine :
    Tame P M g (Value.withDepths g) P (printLine args) (printLine (args.map (Value.withDepths g))) := by
  have hwrite : ∀ line, Tame P M g (Value.withDepths g) P
      (modify (fun m => { m with written := m.written ++ Text.expandBreaks line ++ "\n" }) >>= fun _ =>
        Pure.pure Value.null)
      (modify (fun m => { m with written := m.written ++ Text.expandBreaks line ++ "\n" }) >>= fun _ =>
        Pure.pure Value.null) := by
    intro line
    refine .bind (.modify (fun _ => rfl) (fun _ => rfl) (fun _ hm => hm)) fun _ _ => ?_
    exact .pure (f := Value.withDepths g) (hP _ trivial)
  cases args with
  | nil => exact hwrite ""
  | cons v args =>
    cases v with
    | null => exact hwrite ""
    | _ => exact .bind tame_text fun line _ => hwrite line

private theorem tame_int : Tame P M g (Value.withDepths g) P (int args) (int (args.map (Value.withDepths g))) := by
  cases args with
  | nil => exact .pure (f := Value.withDepths g) (hP _ trivial)
  | cons v args =>
    cases v with
    | string s =>
      change Tame _ _ _ _ _ (if Number.isNumeral s = true then _ else _)
        (if Number.isNumeral s = true then _ else _)
      split
      · cases Number.read? s with
        | none => exact .throw _
        | some x => exact .pure (f := Value.withDepths g) (hP _ trivial)
      · exact .pure (f := Value.withDepths g) (hP _ trivial)
    | _ => exact .pure (f := Value.withDepths g) (hP _ trivial)

theorem tame_native {n : Native} :
    Tame P M g (Value.withDepths g) P (native n args) (native n (args.map (Value.withDepths g))) := by
  cases n with
  | clock => exact tame_clock hP
  | array => exact tame_array hP
  | readLine => exact tame_readLine hP
  | printLine => exact tame_printLine hP
  | int => exact tame_int hP
  | alloc c => exact tame_allocate hP c
  | init i => exact .pure (f := Value.withDepths g) (hP _ trivial)

theorem tame_builtin {b : Builtin} : Tame P M g (Value.withDepths g) P (builtin b) (builtin b) := by
  rw [builtin_eq_handler]
  cases b with
  | arrayCount a =>
    refine .look fun m _ => ?_
    have hsize : ((m.withDepths g).store.elements a).size = (m.store.elements a).size := by
      change ((m.store.withDepths g).elements a).size = _
      rw [Store.elements_withDepths, Array.size_map]
    rw [hsize]
    exact .pure (f := Value.withDepths g) (hP _ trivial)
  | arrayPop a =>
    refine .look fun m hm => ?_
    have hback : ((m.withDepths g).store.elements a).back? =
        ((m.store.elements a).back?).map (Value.withDepths g) := by
      change ((m.store.withDepths g).elements a).back? = _
      rw [Store.elements_withDepths, Array.back?_map]
    have hpop : Tame P M g id (fun _ => True) (modifyStore (·.putElements a Array.pop))
        (modifyStore (·.putElements a Array.pop)) := by
      refine .modify (fun m => ?_) (fun _ => rfl) fun m hm => hm.putElements a fun b hb x hx => ?_
      · exact congrArg (fun store => { m with store := store })
          (Store.putElements_withDepths m.store a fun b => Array.map_pop.symm)
      · rw [← Array.mem_toList_iff, Array.toList_pop] at hx
        exact hb x (Array.mem_toList_iff.1 ((List.dropLast_sublist _).mem hx))
    refine .bind hpop fun _ _ => ?_
    rw [hback]
    cases hlast : (m.store.elements a).back? with
    | none => exact .pure (f := Value.withDepths g) (hP _ trivial)
    | some v => exact .pure (f := Value.withDepths g) (hm.elements a v (Array.mem_of_back? hlast))
  | stringCount s => exact .pure (f := Value.withDepths g) (hP _ trivial)

end Natives

theorem tame_superclassOf (name : String) :
    Tame P M g id (fun _ => True) (superclassOf name v) (superclassOf name (v.withDepths g)) := by
  cases v with
  | classRef c =>
    refine .look fun m _ => ?_
    have hline : (m.withDepths g).store.line c = m.store.line c := Store.line_withDepths m.store c
    rw [hline]
    exact .pure trivial
  | _ =>
    refine .bind (tame_debug ?_) fun _ _ => .pure trivial
    exact .bind tame_text fun _ _ => .pure trivial

theorem tame_newClass (hM : M .alloc) {name : String} {lineage : List ClassId} {properties : Bindings Value}
    (hp : properties.All P) :
    Tame P M g id (fun _ => True) (onStore (Store.newClass name lineage properties))
      (onStore (Store.newClass name lineage (properties.mapAll (Value.withDepths g)))) := by
  have hmethods : Bindings.All M [("alloc", .alloc)] := List.forall_mem_singleton.2 hM
  exact .onStore fun s hs => ⟨Store.recodes_newClass (r := .depths g) name lineage properties s, rfl,
    hs.pushClass hp hmethods, trivial⟩

end ObjScript.Run
