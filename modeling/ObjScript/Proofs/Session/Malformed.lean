import ObjScript.Proofs.Parser.Source

/-!
# Pieces with a syntax error

The parser notes an error in the last statement that it reads, and it gives that statement, its holes filled,
together with the ones that were completed before.  A session runs all of them: the malformed statement is
executed after the others, as if it had been written that way (`malformed_statement_is_run`).
-/

namespace ObjScript

/-- The parse of a piece that gives statements has reached them one by one, and its error is the session's. -/
private theorem Session.reached_parse {s s' : Session} {source : String} {stmts : List Stmt}
    (h : s.parse source = (.ok stmts, s')) :
    ∃ c, Reached (s.tokenize source).1.length (.ofTokens s.typedefs (s.tokenize source).1) stmts c ∧
      s'.errors = c.error?.toList := by
  obtain ⟨c, hparse, herrors⟩ := Session.parse_ok h
  obtain ⟨-, hreached, -⟩ := run_of_parse (s.ended_tokenize source) hparse
  exact ⟨c, hreached, herrors⟩

/-- A piece whose parse notes an error consists of the statements completed before and of the malformed one, in
which the error was noted; and the session runs them all, the malformed one included. -/
theorem malformed_statement_is_run (s s' : Session) (source : String) (stmts : List Stmt) (e : SyntaxError)
    (hparse : s.parse source = (.ok stmts, s')) (he : e ∈ s'.errors) :
    ∃ completed malformed c c', stmts = completed ++ [malformed] ∧
      Reached (s.tokenize source).1.length (.ofTokens s.typedefs (s.tokenize source).1) completed c ∧
      c.error? = none ∧ (grammar (s.tokenize source).1.length).start.result c = (.ok malformed, c') ∧
      c'.error? = some e ∧ (s.execute source).2 = (s'.run (completed ++ [malformed])).2 := by
  obtain ⟨c', hreached, herrors⟩ := Session.reached_parse hparse
  rw [herrors] at he
  have herror : c'.error? = some e := by simpa using he
  have hrun : (s.execute source).2 = (s'.run stmts).2 := by
    unfold Session.execute
    rw [hparse]
    dsimp only
    split <;> next hr => rw [hr]
  cases hreached with
  | nothing => cases herror
  | next hcompleted hend hnone hlast =>
    exact ⟨_, _, _, c', rfl, hcompleted, hnone, hlast _ (Nat.le_refl _), herror, hrun⟩

/-- Where only the last semicolon is missing, the malformed statement prints like any other: both words come
out, although only the first of them belongs to a statement that was completed. -/
theorem malformed_statement_prints :
    let s := Session.initial (Machine.initial [] (fun _ => 0) 30)
    ∃ completed malformed s' e, s.parse "print NO; print YES" = (.ok (completed ++ [malformed]), s') ∧
      e ∈ s'.errors ∧ (s'.run completed).2.machine.printed = "NO\n" ∧
      (s'.run (completed ++ [malformed])).2.machine.printed = "NO\nYES\n" := by
  intro s
  let e : SyntaxError := ⟨.expected [.symbol .semi] .eof, ⟨1, 20⟩⟩
  let parsed := s.parse "print NO; print YES"
  have herrors : parsed.2.errors = [e] := by decide +kernel
  have hprinted : (s.execute "print NO; print YES").2.machine.printed = "NO\nYES\n" := by decide +kernel
  have hfirst : (parsed.2.run (parsed.1.toOption.getD []).dropLast).2.machine.printed = "NO\n" := by decide +kernel
  cases hresult : parsed.1 with
  | error b =>
    have hok : parsed.1.isOk = true := by decide +kernel
    rw [hresult] at hok
    cases hok
  | ok stmts =>
    have hparse : s.parse "print NO; print YES" = (.ok stmts, parsed.2) := Prod.ext hresult rfl
    have he : e ∈ parsed.2.errors := by rw [herrors]; exact List.mem_singleton_self e
    obtain ⟨completed, malformed, -, -, rfl, -, -, -, -, hrun⟩ :=
      malformed_statement_is_run s parsed.2 "print NO; print YES" stmts e hparse he
    rw [hresult] at hfirst
    rw [hrun] at hprinted
    refine ⟨completed, malformed, parsed.2, e, hparse, he, ?_, hprinted⟩
    simpa [Except.toOption] using hfirst

end ObjScript
