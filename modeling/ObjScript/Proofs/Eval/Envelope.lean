import ObjScript.Proofs.Eval.Changes
import ObjScript.Proofs.Eval.Swapping

/-!
# What a run leaves

Seen from outside, a run puts the lines that it printed behind the output, and the mark of a failed run behind them if
it failed; only then the note about the last failure is replaced.  The chain of frames is the one of before, whatever
ended the run (`interpretation_envelope`).
-/

namespace ObjScript

namespace Machine

/-- This text was put behind the output, and this is the note about the last failure. -/
structure Adds (m m' : Machine) (added : String) (note : Option Fault) : Prop where
  printed_eq : m'.printed = m.printed ++ added
  lastFault_eq : m'.lastFault = note

private theorem Leads.adds {m m' : Machine} (h : m.Leads m') :
    ∃ lines, m.Adds m' (Text.ofLines lines) m.lastFault := by
  obtain ⟨lines, hprinted⟩ := h.printed_eq
  exact ⟨lines, hprinted, h.lastFault_eq⟩

/-- A failure is marked behind all that was added. -/
private theorem Adds.noteFault {m m' : Machine} {added : String} {note : Option Fault} (h : m.Adds m' added note)
    (f : Fault) :
    m.Adds (m'.noteFault f) (added ++ failureMark) (some f) := by
  refine ⟨?_, rfl⟩
  change m'.printed ++ failureMark = _
  rw [h.printed_eq, String.append_assoc]

/-- There is only one text that was added. -/
private theorem Adds.added_eq {m m' : Machine} {added other : String} {note : Option Fault} (h : m.Adds m' added note)
    (hother : m'.printed = m.printed ++ other) : other = added := by
  have hsame := congrArg String.toList (hother.symm.trans h.printed_eq)
  simp only [String.toList_append, List.append_cancel_left_eq] at hsame
  exact String.toList_inj.1 hsame

/-- A run puts whole lines behind the output, and the mark of a failed run behind them if it fails. -/
theorem interpret_adds (m : Machine) (stmts : List Stmt) :
    ∃ lines mark note, (mark = "" ∨ mark = failureMark) ∧
      m.Adds (m.interpret stmts).2 (Text.ofLines lines ++ mark) note := by
  have hsteps := Run.stepwise_program (stepwise_interp depthLimit) Env.top stmts m
  obtain ⟨lines, hadds⟩ := hsteps.adds
  -- where nothing fails, the mark is the empty text
  have hplain := hadds
  rw [← String.append_empty (s := Text.ofLines lines)] at hplain
  rw [← interpretWith_interp, interpretWith]
  generalize (Run.program (interp depthLimit) Env.top stmts).result m = x at hadds hplain ⊢
  obtain ⟨r, m'⟩ := x
  cases r with
  | ok _ => exact ⟨lines, "", _, .inl rfl, hplain⟩
  | error stop =>
    cases stop with
    | fault f => exact ⟨lines, failureMark, _, .inr rfl, hadds.noteFault f⟩
    | badNumeral b => exact ⟨lines, "", _, .inl rfl, hplain⟩
    | unfinished => exact ⟨lines, "", _, .inl rfl, hplain⟩

end Machine

namespace Standing

/-- The run of the program fails. -/
def Fails (c : Standing) (stmts : List Stmt) : Prop :=
  ∃ f, (c.ran stmts).1 = .error (.fault f)

/-- What is left of a run that prints these lines. -/
structure Envelope (c : Standing) (stmts : List Stmt) (lines : List String) : Prop where
  /-- Whatever ends the run, the chain is the one of before. -/
  env_eq : (c.interpret stmts).2.env = c.env
  /-- At the top level this is the run of the machine. -/
  machine_eq : c.env = Env.top → c.machine.interpret stmts = ((c.interpret stmts).1, (c.interpret stmts).2.machine)
  /-- The program itself adds whole lines. -/
  ran_adds : c.machine.Adds (c.ran stmts).2.machine (Text.ofLines lines) c.machine.lastFault
  /-- If it runs through, then nothing comes behind them. -/
  of_ok : (c.ran stmts).1 = .ok () → (c.interpret stmts).1 = .ok () ∧
    c.machine.Adds (c.interpret stmts).2.machine (Text.ofLines lines) c.machine.lastFault
  /-- If it fails, then the mark comes behind them, and the failure is noted. -/
  of_fault : ∀ f, (c.ran stmts).1 = .error (.fault f) → (c.interpret stmts).1 = .ok () ∧
    c.machine.Adds (c.interpret stmts).2.machine (Text.ofLines lines ++ failureMark) (some f)
  /-- If something else stops it, then this escapes, and nothing comes behind them. -/
  of_escape : ∀ e, (c.interpret stmts).1 = .error e →
    c.machine.Adds (c.interpret stmts).2.machine (Text.ofLines lines) c.machine.lastFault
  /-- Unless something escapes, the mark at the end tells whether the run failed, also once escapes are expanded. -/
  marked_iff : (c.interpret stmts).1 = .ok () → ∀ added,
    (c.interpret stmts).2.machine.printed = c.machine.printed ++ added →
      (Text.Marked added ↔ c.Fails stmts) ∧ (Text.Marked (Text.expandBreaks added) ↔ c.Fails stmts)

end Standing

/-- Whatever a program does, its run leaves the machine and the chain like this. -/
theorem interpretation_envelope (c : Standing) (stmts : List Stmt) : ∃ lines, c.Envelope stmts lines := by
  have hsteps := Run.stepwise_program (stepwise_interp depthLimit) c.env stmts c.machine
  obtain ⟨lines, hadds⟩ := hsteps.adds
  have hran : c.machine.Adds (c.ran stmts).2.machine (Text.ofLines lines) c.machine.lastFault := by
    rw [Standing.ran_eq]
    exact hadds
  have henv : (c.interpret stmts).2.env = c.env := by
    rw [Standing.interpret_eq]
  have hmachine : c.env = Env.top →
      c.machine.interpret stmts = ((c.interpret stmts).1, (c.interpret stmts).2.machine) := by
    intro htop
    rw [Standing.interpret_eq, htop, ← Machine.interpretWith_interp, Machine.interpretWith]
  refine ⟨lines, ?_⟩
  rcases c.interpret_cases stmts with ⟨hend, hinterpret⟩ | ⟨f, hend, hinterpret⟩ | ⟨stop, e, hend, hstop, hinterpret⟩
  -- the program runs through, and whole lines never end with the mark
  · have hfails : ¬ c.Fails stmts := by
      rintro ⟨f, hf⟩
      rw [hend] at hf
      cases hf
    refine ⟨henv, hmachine, hran, ?_, ?_, ?_, ?_⟩ <;> rw [hinterpret]
    · exact fun _ => ⟨rfl, hran⟩
    · rw [hend]
      exact nofun
    · exact nofun
    · intro _ added hadded
      rw [hran.added_eq hadded]
      exact ⟨iff_of_false (Text.not_marked_ofLines lines) hfails,
        iff_of_false (Text.not_marked_expandBreaks lines) hfails⟩
  -- it fails: the mark begins with a line feed, so that no escape before it can reach into it
  · have hfails : c.Fails stmts := ⟨f, hend⟩
    have hmarked := hran.noteFault f
    refine ⟨henv, hmachine, hran, ?_, ?_, ?_, ?_⟩ <;> rw [hinterpret]
    · rw [hend]
      exact nofun
    · rw [hend]
      rintro _ ⟨rfl⟩
      exact ⟨rfl, hmarked⟩
    · exact nofun
    · intro _ added hadded
      rw [hmarked.added_eq hadded, Text.expandBreaks_append_mark]
      exact ⟨iff_of_true (Text.marked_append _) hfails, iff_of_true (Text.marked_append _) hfails⟩
  -- something escapes, and then nothing is said about the mark
  · refine ⟨henv, hmachine, hran, ?_, ?_, ?_, ?_⟩ <;> rw [hinterpret]
    · rw [hend]
      exact nofun
    · rw [hend]
      rintro f ⟨rfl⟩
      exact absurd rfl (hstop f)
    · exact fun _ _ => hran
    · exact nofun

end ObjScript
