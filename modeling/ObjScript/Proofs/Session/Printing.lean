import ObjScript.Proofs.Eval.Tame
import ObjScript.Proofs.Store.Nesting
import ObjScript.Session

/-!
# Showing values

A value is shown as text by `print`, by `printLine`, in messages of the log, and where the state of a session is
looked at.  All of them end with the text of the value unless there is an array in it that lies within itself
(`printing_ends_iff_acyclic`).  Showing such a value is a recursion without end.  In a program that is a failure, and
wherever in its run a program comes to it, the failure stops the whole run (`Run.ComesTo.result_of_error`).
-/

namespace ObjScript

namespace Run

/-- Within the first step, begun on the first machine, the run comes to the second step on the second machine. -/
inductive ComesTo : {α β : Type} → Run α → Machine → Run β → Machine → Prop where
  | here {α : Type} (t : Run α) (m : Machine) : ComesTo t m t m
  | first {α β γ : Type} {t : Run α} {k : α → Run γ} {u : Run β} {m m' : Machine} :
      ComesTo t m u m' → ComesTo (t >>= k) m u m'
  | next {α β γ : Type} {t : Run α} {k : α → Run γ} {u : Run β} {m m₁ m' : Machine} {a : α} :
      t.result m = (.ok a, m₁) → ComesTo (k a) m₁ u m' → ComesTo (t >>= k) m u m'

/-- Nothing in a run goes on after a failure. -/
private theorem ComesTo.result_of_error {α β : Type} {t : Run α} {u : Run β} {m m' m'' : Machine} {e : Stop}
    (h : ComesTo t m u m') (hu : u.result m' = (.error e, m'')) : t.result m = (.error e, m'') := by
  induction h with
  | here => exact hu
  | first _ ih =>
    rw [result_bind, ih hu]
  | next ht _ ih =>
    rw [result_bind, ht]
    exact ih hu

variable {m m' : Machine} {v : Value} {t : String}

private theorem result_text_of_some (h : m.store.text? v = some t) : (text v).result m = (.ok t, m) := by
  unfold text
  rw [result_get_bind, h]
  rfl

private theorem result_text_of_none (h : m.store.text? v = none) :
    (text v).result m = (.error (.fault .tooDeep), m) := by
  unfold text
  rw [result_get_bind, h]
  rfl

variable {i : Interp} {env : Env} {e : Expr}

/-- `print` does nothing else with a value than to show it. -/
private theorem execStmt_print (i : Interp) (env : Env) (e : Expr) :
    execStmt i env (.print e) = i.eval env e >>= fun v =>
      if v.isNull then pure none
      else text v >>= fun t => modify (fun m => { m with printed := m.printed ++ t ++ "\n" }) >>= fun _ =>
        pure none := by
  unfold execStmt
  refine congrArg (i.eval env e >>= ·) (funext fun v => ?_)
  cases v.isNull <;> rfl

private theorem native_printLine (v : Value) (more : List Value) :
    native .printLine (v :: more) = (if v.isNull then pure "" else text v) >>= fun line =>
      modify (fun m => { m with written := m.written ++ Text.expandBreaks line ++ "\n" }) >>= fun _ =>
        pure .null := by
  cases v <;> rfl

private theorem comesTo_print (heval : (i.eval env e).result m = (.ok v, m')) (hv : v.isNull = false) :
    ComesTo (execStmt i env (.print e)) m (text v) m' := by
  rw [execStmt_print]
  refine .next heval ?_
  rw [hv, if_neg Bool.false_ne_true]
  exact .first (.here _ _)

private theorem comesTo_printLine (m : Machine) (more : List Value) (hv : v.isNull = false) :
    ComesTo (native .printLine (v :: more)) m (text v) m := by
  rw [native_printLine, hv, if_neg Bool.false_ne_true]
  exact .first (.here _ _)

end Run

namespace Machine

/-- A program that shows the value gets this text. -/
structure Shows (m : Machine) (v : Value) (t : String) : Prop where
  text_eq : (Run.text v).result m = (.ok t, m)
  /-- Nothing is printed for null. -/
  print_eq : ∀ (i : Interp) env e start, (i.eval env e).result start = (.ok v, m) →
    (Run.execStmt i env (.print e)).result start =
      (.ok none, { m with printed := m.printed ++ if v.isNull then "" else t ++ "\n" })
  /-- For null the line is empty. -/
  printLine_eq : ∀ more, (Run.native .printLine (v :: more)).result m =
    (.ok .null, { m with written := m.written ++ Text.expandBreaks (if v.isNull then "" else t) ++ "\n" })

/-- Showing the value goes on without end, which is a failure of the program. -/
structure NeverShows (m : Machine) (v : Value) : Prop where
  endless : ∃ calls : Nat → Value, calls 0 = v ∧ ∀ k, m.store.Asks (calls k) (calls (k + 1))
  /-- However deep the nesting may be. -/
  textUpTo_eq_none : ∀ n, m.store.textUpTo n v = none
  print_fails : ∀ (i : Interp) env e start, (i.eval env e).result start = (.ok v, m) →
    (Run.execStmt i env (.print e)).result start = (.error (.fault .tooDeep), m)
  printLine_fails : ∀ more, (Run.native .printLine (v :: more)).result m = (.error (.fault .tooDeep), m)
  /-- A program that comes to it stops there. -/
  program_fails : ∀ stmts start,
    Run.ComesTo (Run.program (interp depthLimit) Env.top stmts) start (Run.text v) m →
      ∃ f, f.kind = "RecursionError" ∧ start.interpret stmts = (.ok (), m.noteFault f)

variable {m : Machine} {v : Value} {t : String}

private theorem shows_of_text (h : m.store.text? v = some t) : m.Shows v t where
  text_eq := Run.result_text_of_some h
  print_eq i env e start heval := by
    rw [Run.execStmt_print, Run.result_bind, heval]
    dsimp only
    cases v.isNull with
    | true =>
      rw [if_pos rfl, if_pos rfl, String.append_empty]
      rfl
    | false =>
      rw [if_neg Bool.false_ne_true, if_neg Bool.false_ne_true, Run.result_bind, Run.result_text_of_some h,
        ← String.append_assoc]
      rfl
  printLine_eq more := by
    rw [Run.native_printLine, Run.result_bind]
    cases v.isNull with
    | true => rfl
    | false =>
      rw [if_neg Bool.false_ne_true, if_neg Bool.false_ne_true, Run.result_text_of_some h]
      rfl

/-- A failure that a program comes to is noted, and it ends the run. -/
private theorem interpret_of_comesTo {α : Type} {u : Run α} {stmts : List Stmt} {start : Machine} {f : Fault}
    (h : Run.ComesTo (Run.program (interp depthLimit) Env.top stmts) start u m)
    (hu : u.result m = (.error (.fault f), m)) : start.interpret stmts = (.ok (), m.noteFault f) := by
  have hprogram := h.result_of_error hu
  unfold Run.result at hprogram
  unfold interpret
  rw [hprogram]

private theorem exists_shows_iff : (∃ t, m.Shows v t) ↔ ¬ m.store.Cyclic v := by
  constructor
  · rintro ⟨t, ht⟩ hv
    have hnone := Run.result_text_of_none (Store.text?_eq_none_iff.2 hv)
    rw [ht.text_eq] at hnone
    cases hnone
  · intro hv
    obtain ⟨t, ht⟩ := Store.exists_text?_iff.2 hv
    exact ⟨t, shows_of_text ht⟩

private theorem neverShows_iff : m.NeverShows v ↔ m.store.Cyclic v := by
  refine ⟨fun h => Store.cyclic_iff_endless.2 h.endless, fun h => ?_⟩
  have hnot : v.isNull = false := by
    obtain ⟨a, _, rfl, _⟩ := h
    rfl
  have htext := Run.result_text_of_none (Store.text?_eq_none_iff.2 h)
  exact {
    endless := Store.cyclic_iff_endless.1 h
    textUpTo_eq_none := h.textUpTo_eq_none
    print_fails := fun i env e start heval => (Run.comesTo_print heval hnot).result_of_error htext
    printLine_fails := fun more => (Run.comesTo_printLine m more hnot).result_of_error htext
    program_fails := fun stmts start hcomes => ⟨.tooDeep, rfl, interpret_of_comesTo hcomes htext⟩ }

end Machine

namespace Session

private theorem exists_textOf?_iff (s : Session) (name : String) :
    let found := (Store.read Env.top name).run s.machine.store
    (∃ t, (s.textOf? name).1 = some t) ↔ ¬ found.2.Cyclic found.1 :=
  Store.exists_text?_iff

private theorem exists_topBindings?_iff (s : Session) : (∃ shown, s.topBindings? = some shown) ↔
    ∀ p ∈ (s.machine.store.frame ⟨1⟩).bindings, ¬ s.machine.store.Cyclic p.2 := by
  unfold topBindings?
  rw [exists_mapM_iff]
  refine forall₂_congr fun p _ => ?_
  rw [← Store.exists_text?_iff]
  cases s.machine.store.text? p.2 <;> simp

end Session

/-- **Showing a value ends exactly if no array in it lies within itself.**  The text of an array is made from those of
its elements, and where that does not come to an end, a program fails.  So it is with `print` and `printLine`, and
with all that is asked about the state of a session. -/
theorem printing_ends_iff_acyclic :
    (∀ (s : Store) (a : ArrayId), s.text? (.array a) = (s.elements a).toList.mapM s.text? >>= fun parts =>
      some ("[" ++ ", ".intercalate parts ++ "]")) ∧
    (∀ (m : Machine) (v : Value), ((∃ t, m.Shows v t) ↔ ¬ m.store.Cyclic v) ∧ (m.NeverShows v ↔ m.store.Cyclic v)) ∧
    ∀ s : Session,
      (∀ name, let found := (Store.read Env.top name).run s.machine.store
        (∃ t, (s.textOf? name).1 = some t) ↔ ¬ found.2.Cyclic found.1) ∧
      ((∃ shown, s.topBindings? = some shown) ↔
        ∀ p ∈ (s.machine.store.frame ⟨1⟩).bindings, ¬ s.machine.store.Cyclic p.2) := by
  exact ⟨Store.text?_array, fun m v => ⟨Machine.exists_shows_iff, Machine.neverShows_iff⟩,
    fun s => ⟨s.exists_textOf?_iff, s.exists_topBindings?_iff⟩⟩

/-- A machine with an array that has another one before itself; that one holds an empty array twice. -/
def knottedMachine : Machine :=
  let arrays := #[#[.array ⟨1⟩, .array ⟨0⟩], #[.array ⟨2⟩, .array ⟨2⟩], #[]]
  let frame : Frame := ⟨[("a", .array ⟨0⟩), ("b", .array ⟨1⟩)], none⟩
  { Machine.initial [] (fun _ => 0) 30 with
    store := { Store.initial with arrays := arrays, frames := Store.initial.frames.setIfInBounds 1 frame } }

/-- What is held twice is shown, and the program that prints the other array fails. -/
theorem printing_ends_iff_acyclic_at_knot :
    knottedMachine.Shows (.array ⟨1⟩) "[[], []]" ∧
      ∃ f, f.kind = "RecursionError" ∧
        knottedMachine.interpret [.print (.variable ⟨⟨"a", ⟨1, 7⟩⟩, some 0⟩)] =
          (.ok (), knottedMachine.noteFault f) := by
  have htext : knottedMachine.store.text? (.array ⟨1⟩) = some "[[], []]" := by decide +kernel
  have hknot : knottedMachine.store.Cyclic (.array ⟨0⟩) :=
    ⟨⟨0⟩, ⟨0⟩, rfl, .refl, .single (Array.mem_toList_iff.1 (List.mem_cons_of_mem _ List.mem_cons_self))⟩
  constructor
  · obtain ⟨t, ht⟩ := (printing_ends_iff_acyclic.2.1 knottedMachine (.array ⟨1⟩)).1.2
      (Store.exists_text?_iff.1 ⟨_, htext⟩)
    obtain rfl : t = "[[], []]" := by
      have hsame := (Run.result_text_of_some htext).symm.trans ht.text_eq
      cases hsame
      rfl
    exact ht
  · have hnever := (printing_ends_iff_acyclic.2.1 knottedMachine (.array ⟨0⟩)).2.2 hknot
    have hread : ((interp 999).eval Env.top (.variable ⟨⟨"a", ⟨1, 7⟩⟩, some 0⟩)).result knottedMachine =
        (.ok (.array ⟨0⟩), knottedMachine) := rfl
    exact hnever.program_fails _ knottedMachine (.first (Run.comesTo_print hread rfl))

end ObjScript
