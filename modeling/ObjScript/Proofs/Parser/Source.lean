import ObjScript.Proofs.Parser.Program
import ObjScript.Proofs.Token.Tiles
import ObjScript.Session

/-!
# From source to statements

The tokens of a source end with the end token and contain no other one (`Session.ended_tokenize`), and the
statements that the parser makes of such tokens leave the depth of every reference open
(`Session.asParsed_parse`).
-/

namespace ObjScript

/-- The tokens of a piece tile its source. -/
theorem Session.tiles_tokenize (s : Session) (source : String) :
    Tiles [] source.toList (s.tokenize source).1 (s.tokenize source).2.unhandled :=
  ((tiles_placeTokens [] source.toList).markClass _).markClass _

private theorem Ended.of_readable {tokens : List Token} (h : ∀ t ∈ tokens, t.Readable) (p : Pos) :
    Ended (tokens ++ [Token.eof p]) := by
  induction tokens with
  | nil => exact .last rfl
  | cons t rest ih =>
    obtain ⟨ht, hrest⟩ := List.forall_mem_cons.1 h
    exact .more ht.kind_ne_eof (ih hrest)

theorem Session.ended_tokenize (s : Session) (source : String) : Ended (s.tokenize source).1 := by
  obtain ⟨init, htokens, hinit⟩ := (s.tiles_tokenize source).eof_last
  rw [htokens]
  exact .of_readable hinit _

/-- The statements of a token list are as the parser builds them. -/
theorem asParsed_parse {typedefs : Names} {tokens : List Token} {stmts : List Stmt} {c : Cursor} (hend : Ended tokens)
    (h : parse typedefs tokens = (.ok stmts, c)) : ∀ n ∈ Stmt.nodesList stmts, n.AsParsed := by
  have hg := grammar_reads tokens.length _ _ (Nat.le_succ _) (Nat.le_succ _)
  have hreads := Parse.readsAt_many (turns_topStatement? hg) _ _ (.ofTokens typedefs tokens) hend (Nat.le_refl _)
    (Cursor.left_le _) (Cursor.left_le _)
  have hparse := (result_program (.ofTokens typedefs tokens)).symm.trans h
  rcases hreads.2 with ⟨l, c', hl, -, -, hall⟩ | ⟨b, c', hb, -⟩
  · obtain ⟨hok, -⟩ := Prod.mk.inj (hparse.symm.trans hl)
    rw [Except.ok.inj hok]
    exact Stmt.forall_nodesList hall
  · exact absurd (hparse.symm.trans hb) nofun

/-- Parsing a piece may leave a warning in the log, but it does not touch the store or the scopes. -/
theorem Session.parse_frame (s : Session) (source : String) :
    (∃ log, (s.parse source).2.machine = { s.machine with log := log }) ∧
      (s.parse source).2.scopes = s.scopes := by
  unfold Session.parse
  dsimp only
  split
  · exact ⟨⟨_, rfl⟩, rfl⟩
  · split
    · exact ⟨⟨_, rfl⟩, rfl⟩
    · exact ⟨⟨_, rfl⟩, rfl⟩

/-- The parse of a piece is one of its tokens, and its error is the session's. -/
theorem Session.parse_ok {s s' : Session} {source : String} {stmts : List Stmt}
    (h : s.parse source = (.ok stmts, s')) :
    ∃ c, ObjScript.parse s.typedefs (s.tokenize source).1 = (.ok stmts, c) ∧ s'.errors = c.error?.toList := by
  unfold Session.parse at h
  dsimp only at h
  split at h
  · cases h
  · next stmts' hresult =>
    split at h
    all_goals
      obtain ⟨hok, rfl⟩ := Prod.mk.inj h
      exact ⟨_, Prod.ext (hresult.trans hok) rfl, rfl⟩

/-- The statements of a piece are as the parser builds them. -/
theorem Session.asParsed_parse {s s' : Session} {source : String} {stmts : List Stmt}
    (h : s.parse source = (.ok stmts, s')) : ∀ n ∈ Stmt.nodesList stmts, n.AsParsed := by
  obtain ⟨c, hparse, -⟩ := Session.parse_ok h
  exact ObjScript.asParsed_parse (s.ended_tokenize source) hparse

end ObjScript
