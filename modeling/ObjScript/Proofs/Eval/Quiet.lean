import ObjScript.Eval.Interpreter
import ObjScript.Proofs.Eval.Tame

/-!
# Steps that leave the store alone

Operators, messages of the log, the clock, input and output do not touch the store (`Run.Quiet`), and what
they give contains no function, no class and no instance (`Value.IsData`).
-/

namespace ObjScript

/-- The value stands for no function, no class and no instance. -/
def Value.IsData : Value → Prop
  | .null | .number _ | .string _ | .bool _ | .array _ | .builtin _ => True
  | _ => False

namespace Run

variable {α β : Type}

/-- The step leaves the store as it is, and its result has the property. -/
def Quiet (Q : α → Prop) (t : Run α) : Prop :=
  ∀ m : Machine, ∃ r m', t.result m = (r, m') ∧ m'.store = m.store ∧ ∀ a, r = .ok a → Q a

namespace Quiet

variable {Q : α → Prop} {R : β → Prop}

theorem pure {a : α} (ha : Q a) : Quiet Q (pure a) :=
  fun m => ⟨.ok a, m, rfl, rfl, fun _ h => Except.ok.inj h ▸ ha⟩

theorem throw (e : Stop) : Quiet Q (throw e) :=
  fun m => ⟨.error e, m, rfl, rfl, nofun⟩

theorem bind {t : Run α} {k : α → Run β} (ht : Quiet Q t) (hk : ∀ a, Q a → Quiet R (k a)) :
    Quiet R (t >>= k) := by
  intro m
  obtain ⟨r, m₁, ht, hstore, hr⟩ := ht m
  rw [result_bind, ht]
  cases r with
  | error e => exact ⟨.error e, m₁, rfl, hstore, nofun⟩
  | ok a =>
    obtain ⟨r, m₂, hk, hstore', hr'⟩ := hk a (hr a rfl) m₁
    exact ⟨r, m₂, hk, hstore'.trans hstore, hr'⟩

/-- A step that looks at the machine. -/
private theorem look {k : Machine → Run α} (hk : ∀ m, Quiet Q (k m)) : Quiet Q (get >>= k) :=
  fun m => hk m m

/-- A change of the machine around the store. -/
theorem modify {f : Machine → Machine} (hf : ∀ m, (f m).store = m.store) :
    Quiet (fun _ => True) (modify f : Run Unit) :=
  fun m => ⟨.ok (), f m, rfl, hf m, fun _ _ => trivial⟩

end Quiet

theorem quiet_text (v : Value) : Quiet (fun _ => True) (text v) := by
  unfold text
  refine .look fun m => ?_
  split
  · exact .pure trivial
  · exact .throw _

theorem quiet_debug (source : LogSource) {message : Run String} (h : Quiet (fun _ => True) message) :
    Quiet (fun _ => True) (debug source message) := by
  unfold debug
  refine .look fun m => ?_
  split
  · exact .bind h fun _ _ => .modify fun _ => rfl
  · exact .pure trivial

theorem quiet_add (v w : Value) (pos : Pos) : Quiet Value.IsData (add v w pos) := by
  unfold add
  split
  · exact .pure trivial
  · exact .pure trivial
  · exact .pure trivial
  · exact .pure trivial
  · exact .throw _

private theorem quiet_operand (op : BinaryOp) (pos : Pos) (v : Value) : Quiet (fun _ => True) (operand op pos v) := by
  unfold operand
  split
  · exact .pure trivial
  · exact .throw _

private theorem isData_arithmetic (op : BinaryOp) (x y : Float) : (arithmetic op x y).IsData := by
  cases op <;> trivial

theorem quiet_binary (op : BinaryOp) (pos : Pos) (v w : Value) : Quiet Value.IsData (binary op pos v w) := by
  unfold binary
  split
  · exact quiet_add v w pos
  · exact .pure trivial
  · exact .pure trivial
  · exact .bind (quiet_operand _ pos v) fun x _ => .bind (quiet_operand _ pos w) fun y _ =>
      .pure (isData_arithmetic _ x y)

theorem quiet_unary (op : UnaryOp) (pos : Pos) (v : Value) : Quiet Value.IsData (unary op pos v) := by
  unfold unary
  split
  · exact .pure trivial
  · exact .pure trivial
  · exact .throw _

theorem quiet_clock : Quiet Value.IsData clock :=
  fun m => ⟨.ok (.number (m.clock m.clockReads)), { m with clockReads := m.clockReads + 1 }, rfl, rfl,
    fun _ h => Except.ok.inj h ▸ trivial⟩

theorem quiet_readLine : Quiet Value.IsData readLine := by
  intro m
  obtain ⟨store, printed, written, input, clock, reads, log, fault⟩ := m
  cases input with
  | nil => exact ⟨.ok .null, _, rfl, rfl, fun _ h => Except.ok.inj h ▸ trivial⟩
  | cons line rest => exact ⟨.ok (.string line), _, rfl, rfl, fun _ h => Except.ok.inj h ▸ trivial⟩

theorem quiet_printLine (args : List Value) : Quiet Value.IsData (printLine args) := by
  have hwrite : ∀ line : String, Quiet Value.IsData (do
      modify fun m => { m with written := m.written ++ Text.expandBreaks line ++ "\n" }
      return .null) := fun line => .bind (.modify fun _ => rfl) fun _ _ => .pure trivial
  unfold printLine
  split
  · exact hwrite ""
  · exact hwrite ""
  · exact .bind (quiet_text _) fun line _ => hwrite line

theorem quiet_int (args : List Value) : Quiet Value.IsData (int args) := by
  unfold int
  split
  · split
    · split
      · exact .pure trivial
      · exact .throw _
    · exact .pure trivial
  · exact .pure trivial

theorem quiet_arraySize (args : List Value) : Quiet (fun _ => True) (arraySize args) := by
  unfold arraySize
  split
  · split
    · split
      · exact .throw _
      · exact .pure trivial
    · exact .pure trivial
  · exact .pure trivial

theorem isData_builtinMember (v : Value) (x : String) : (builtinMember v x).IsData := by
  unfold builtinMember
  split <;> trivial

end Run

end ObjScript
