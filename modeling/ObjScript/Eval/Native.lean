import ObjScript.Eval.Variable
import ObjScript.Text.Escape

/-!
# Native functions

The functions that every program sees, and the methods of arrays and strings.  Missing arguments count as
absent and superfluous ones are ignored.
-/

namespace ObjScript.Run

/-- The reading of the clock. -/
def clock : Run Value := do
  let m ← get
  set { m with clockReads := m.clockReads + 1 }
  return .number (m.clock m.clockReads)

/-- The number of elements that a new array gets: none unless the argument is a positive number. -/
def arraySize (args : List Value) : Run Nat :=
  match args with
  | .number x :: _ =>
    match Number.truncate? x with
    | some size =>
      if maxArraySize.toFloat < x then fail (.arrayTooLarge (Number.text x)) else return size.toNat
    | none => return 0
  | _ => return 0

/-- An array of nulls. -/
def array (args : List Value) : Run Value := do
  let size ← arraySize args
  return .array (← onStore (Store.newArray (Array.replicate size .null)))

/-- The next line of the input, null at its end. -/
def readLine : Run Value := do
  let m ← get
  match m.input with
  | [] => return .null
  | line :: rest =>
    set { m with input := rest }
    return .string line

/-- Writes the first argument and ends the line; null leaves it empty. -/
def printLine (args : List Value) : Run Value := do
  let line ← match args with
    | [] | .null :: _ => pure ""
    | v :: _ => text v
  modify fun m => { m with written := m.written ++ Text.expandBreaks line ++ "\n" }
  return .null

/-- The number that a string spells, null if it is no numeral, and zero for anything but a string. -/
def int (args : List Value) : Run Value := do
  match args with
  | .string s :: _ =>
    if Number.isNumeral s then
      match Number.read? s with
      | some x => return .number x
      | none => throw (.badNumeral ⟨s⟩)
    else
      return .null
  | _ => return .number 0

/-- Calls a native function. -/
def native (n : Native) (args : List Value) : Run Value :=
  match n with
  | .clock => clock
  | .array => array args
  | .readLine => readLine
  | .printLine => printLine args
  | .int => int args
  | .alloc c => onStore (Store.allocate c)
  | .init i => return .object i

/-- The methods of arrays and strings. -/
def builtinMember : Value → String → Value
  | .array a, "count" => .builtin (.arrayCount a)
  | .array a, "pop" => .builtin (.arrayPop a)
  | .string s, "count" => .builtin (.stringCount s)
  | _, _ => .null

/-- What is found on a value is the method of this name on this subject, and every method is found there. -/
private theorem builtinMember_eq_builtin {v : Value} {x : String} {b : Builtin} :
    builtinMember v x = .builtin b ↔ v = b.subject ∧ x = b.name := by
  constructor
  · intro h
    unfold builtinMember at h
    split at h <;> cases h <;> exact ⟨rfl, rfl⟩
  · rintro ⟨rfl, rfl⟩
    cases b <;> rfl

/-- What the methods of arrays and strings do. -/
def handler : Builtin → Run Value
  | .arrayCount a => do
    return .number ((← get).store.elements a).size.toFloat
  | .arrayPop a => do
    let last := ((← get).store.elements a).back?
    modifyStore (·.putElements a Array.pop)
    return last.getD .null
  | .stringCount s => return .number s.length.toFloat

/-- Calls a method of arrays or strings.  It is looked up on its subject again, and there it is
(`builtin_eq_handler`). -/
def builtin (b : Builtin) : Run Value :=
  match builtinMember b.subject b.name with
  | .builtin found => handler found
  | _ => fail (.noBuiltinMethod b.subject.typeName b.name)

/-- So a call finds its method again, and none fails for want of one. -/
theorem builtin_eq_handler (b : Builtin) : builtin b = handler b := by
  unfold builtin
  rw [builtinMember_eq_builtin.2 ⟨rfl, rfl⟩]

end ObjScript.Run
