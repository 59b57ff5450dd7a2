import ObjScript.Proofs.Eval.Envelope
import ObjScript.Proofs.Session.Code

/-!
# The outputs of the pieces

Each piece gives what it put behind the output, with escapes expanded.  A piece puts sealed text there
(`Session.execute_adds`): it never leaves an escape half done.  So the outputs of the pieces, one after the other, are
the whole output with its escapes expanded (`outputs_add_up`).
-/

namespace ObjScript

namespace Session

private theorem outputFrom_append (before added : String) :
    outputFrom (before ++ added) before.length = Text.expandBreaks added := by
  unfold outputFrom Text.expandBreaks
  rw [String.toList_append, ← String.length_toList, List.drop_left]

/-- What a piece gives is the text that it puts behind the output, with escapes expanded. -/
private theorem execute_adds {s : Session} {source output : String} (h : (s.execute source).1 = .ok output) :
    ∃ added note, s.machine.Adds (s.execute source).2.machine added note ∧ Text.Sealed added ∧
      output = Text.expandBreaks added := by
  obtain ⟨⟨log, hmachine⟩, -⟩ := s.parse_frame source
  cases hparse : s.parse source with
  | mk result s' =>
    rw [hparse] at hmachine
    have hprinted : s'.machine.printed = s.machine.printed := congrArg (·.printed) hmachine
    cases result with
    | error b =>
      unfold execute at h
      rw [hparse] at h
      cases h
    | ok stmts =>
      obtain ⟨lines, mark, note, hmark, hadds⟩ := s'.machine.interpret_adds (s'.resolve stmts).1
      have hsealed : Text.Sealed (Text.ofLines lines ++ mark) := by
        apply (Text.sealed_ofLines lines).append
        rcases hmark with rfl | rfl
        · decide
        · exact Text.sealed_failureMark
      have hrun : s.machine.Adds (s'.run stmts).2.machine (Text.ofLines lines ++ mark) note := by
        refine ⟨?_, hadds.lastFault_eq⟩
        rw [← hprinted]
        exact hadds.printed_eq
      have houtput : output = outputFrom (s'.run stmts).2.machine.printed s'.machine.printed.length := by
        unfold execute at h
        rw [hparse] at h
        dsimp only at h
        split at h
        · cases h
        · next hend =>
          rw [hend]
          exact (Except.ok.inj h).symm
      refine ⟨_, note, execute_snd hparse ▸ hrun, hsealed, ?_⟩
      rw [houtput, hrun.printed_eq, hprinted, outputFrom_append]

/-- The outputs of further pieces. -/
private theorem expandBreaks_executeAll {s : Session} (hs : Text.Sealed s.machine.printed)
    {sources outputs : List String}
    (h : (s.executeAll sources).1 = outputs.map .ok) :
    Text.expandBreaks (s.executeAll sources).2.machine.printed =
      Text.expandBreaks s.machine.printed ++ String.join outputs := by
  induction sources generalizing s outputs with
  | nil =>
    cases outputs with
    | nil => exact (String.append_empty).symm
    | cons output outputs => cases h
  | cons source rest ih =>
    cases outputs with
    | nil => cases h
    | cons output outputs =>
      obtain ⟨hfirst, hrest⟩ := List.cons.inj h
      obtain ⟨added, note, hadds, hsealed, rfl⟩ := execute_adds hfirst
      have hprinted := hadds.printed_eq
      -- what the next piece starts from does not end within an escape either
      have hs' : Text.Sealed (s.execute source).2.machine.printed := by
        rw [hprinted]
        exact hs.append hsealed
      have hlater := ih hs' hrest
      rw [hprinted, Text.expandBreaks_append hs] at hlater
      rw [String.join_cons, ← String.append_assoc]
      exact hlater

end Session

/-- The outputs of the pieces of a session are together the whole output, with its escapes expanded. -/
theorem outputs_add_up (input : List String) (clock : Nat → Float) (threshold : Nat) (sources outputs : List String)
    (h : ((Session.initial (Machine.initial input clock threshold)).executeAll sources).1 = outputs.map .ok) :
    String.join outputs = Text.expandBreaks
      ((Session.initial (Machine.initial input clock threshold)).executeAll sources).2.machine.printed := by
  have hnew : Text.Sealed "" := by decide
  rw [Session.expandBreaks_executeAll hnew h]
  exact (String.empty_append).symm

/-- A piece with an escape, one that fails, and one that is not parsed to its end. -/
theorem outputs_add_up_past_failures :
    let s := Session.initial (Machine.initial [] (fun _ => 0) 30)
    let sources := ["print @\"a\\nb\\\\\";", "print 1 - nil;", "print @\"n\"; print )"]
    let outputs := ["a\nb\\\\\n", "\nERROR", "n\n"]
    (s.executeAll sources).1 = outputs.map .ok ∧
      String.join outputs = Text.expandBreaks (s.executeAll sources).2.machine.printed := by
  intro s sources outputs
  have h : (s.executeAll sources).1 = outputs.map .ok := by decide +kernel
  exact ⟨h, outputs_add_up [] (fun _ => 0) 30 sources outputs h⟩

end ObjScript
