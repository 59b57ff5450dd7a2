import ObjScript.Proofs.Parser.Levels
import ObjScript.Proofs.Parser.Source
import ObjScript.Prompt.Command

/-!
# Entries that are complete

The prompt decides by a count over the tokens whether an entry goes on.  What the parser reads to its end without an
error leaves nothing open in that count, and so an entry that is complete for the parser is handed over by the enter
key (`complete_entries_are_submitted`).
-/

namespace ObjScript

open Parse Prompt

/-! ### The count at the prompt -/

/-- Which identifiers are class names makes no difference to the count. -/
private theorem through_markClasses (L : Level) (known : Names) (tokens : List Token) :
    openings.through L (markClasses known tokens) = openings.through L tokens := by
  unfold markClasses
  generalize classNames known tokens = names
  induction tokens generalizing L with
  | nil => rfl
  | cons t rest ih =>
    have ht : openings.after L (t.markClass names).kind = openings.after L t.kind := by
      unfold Token.markClass
      split
      · next hmark =>
        have hident : t.kind = .ident := of_decide_eq_true (Bool.and_eq_true_iff.1 hmark).1
        rw [hident]
        rfl
      · rfl
    rw [List.map_cons]
    change openings.through (openings.after L (t.markClass names).kind) _ =
      openings.through (openings.after L t.kind) _
    rw [ht, ih]

/-- The prompt keeps this tally, brackets and sections each by themselves. -/
private theorem foldl_countOpen (L : Level) (tokens : List Token) :
    tokens.foldl (countOpen opensBracket closesBracket) L.brackets = (openings.through L tokens).brackets ∧
      tokens.foldl (countOpen opensSection closesSection) L.sections = (openings.through L tokens).sections := by
  induction tokens generalizing L with
  | nil => exact ⟨rfl, rfl⟩
  | cons t rest ih => exact ih (openings.after L t.kind)

/-! ### Entries -/

/-- What is parsed without an error leaves nothing open. -/
private theorem through_of_parse {typedefs : Names} {tokens : List Token} {stmts : List Stmt} {c : Cursor}
    (hend : Ended tokens)
    (h : parse typedefs tokens = (.ok stmts, c)) (he : c.error? = none) (L : Level) :
    openings.through L tokens = L := by
  let c₀ := Cursor.ofTokens typedefs tokens
  obtain ⟨hended, hread⟩ := goes_program L c₀ hend stmts c h
  obtain ⟨-, ts, hts, hlevel⟩ := hread he
  obtain ⟨-, -, hstopped⟩ := run_of_parse hend h
  rw [he] at hstopped
  -- only the end token is left, and it does not count
  obtain ⟨t, hrest, ht⟩ := rest_of_atEnd hended (hstopped.resolve_right nofun)
  have htokens : tokens = ts ++ [t] := by
    rw [← hrest]
    exact hts
  rw [htokens, Tally.through_append, hlevel]
  change openings.after L t.kind = L
  rw [ht, openings.after_eof]

/-- Parsing without an error means that the prompt sees nothing open. -/
private theorem Session.openings_of_parse {s : Session} {text : String} {stmts : List Stmt}
    (h : (s.parse text).1 = .ok stmts) (he : (s.parse text).2.errors = []) :
    bracketDepth text = 0 ∧ openAtEnd opensSection closesSection text = 0 := by
  obtain ⟨c, hparse, herrors⟩ := Session.parse_ok (Prod.ext h rfl)
  have hnone : c.error? = none := by
    rw [herrors] at he
    exact Option.toList_eq_nil_iff.1 he
  have hclosed := through_of_parse (s.ended_tokenize text) hparse hnone ⟨0, 0⟩
  have htokens : openings.through ⟨0, 0⟩ (ObjScript.tokenize text).tokens = ⟨0, 0⟩ :=
    (through_markClasses _ s.classNames _).symm.trans hclosed
  obtain ⟨hbrackets, hsections⟩ := foldl_countOpen ⟨0, 0⟩ (ObjScript.tokenize text).tokens
  rw [htokens] at hbrackets hsections
  exact ⟨hbrackets, hsections⟩

/-- An entry that the parser reads without an error is complete for the prompt, and enter hands it over; so where the
prompt waits for more, the parser is stopped or notes an error. -/
theorem complete_entries_are_submitted (s : Session) (text : String) :
    (∀ stmts, (s.parse text).1 = .ok stmts → (s.parse text).2.errors = [] →
      bracketDepth text = 0 ∧ awaitsMore text = false ∧ enter text = [.submit]) ∧
    (awaitsMore text = true → (∃ b, (s.parse text).1 = .error b) ∨ (s.parse text).2.errors ≠ []) := by
  have hcomplete : ∀ stmts, (s.parse text).1 = .ok stmts → (s.parse text).2.errors = [] →
      bracketDepth text = 0 ∧ awaitsMore text = false := by
    intro stmts h he
    obtain ⟨hbrackets, hsections⟩ := Session.openings_of_parse h he
    refine ⟨hbrackets, ?_⟩
    unfold awaitsMore
    rw [hbrackets, hsections]
    rfl
  constructor
  · intro stmts h he
    obtain ⟨hbrackets, hawaits⟩ := hcomplete stmts h he
    refine ⟨hbrackets, hawaits, ?_⟩
    unfold enter
    rw [hawaits, Bool.not_false, Bool.or_true]
    rfl
  · intro hawaits
    cases hresult : (s.parse text).1 with
    | error b => exact .inl ⟨b, rfl⟩
    | ok stmts =>
      refine .inr fun he => ?_
      rw [(hcomplete stmts hresult he).2] at hawaits
      cases hawaits

/-- A block type inside a method is complete; without its last bracket it is not. -/
theorem complete_entries_are_submitted_at_block_type :
    let s := Session.initial (Machine.initial [] (fun _ => 0) 30)
    let text := "@implementation A - (int (^)(int)) f \x7b return ^int(int x) \x7b return x; \x7d; \x7d @end"
    (∃ stmts, (s.parse text).1 = .ok stmts ∧ (s.parse text).2.errors = [] ∧
      bracketDepth text = 0 ∧ awaitsMore text = false ∧ enter text = [.submit]) ∧
    awaitsMore "print (1 + @[2, 3]" = true ∧ (s.parse "print (1 + @[2, 3]").2.errors ≠ [] := by
  intro s text
  have herrors : (s.parse text).2.errors = [] := by decide +kernel
  have hawaits : awaitsMore "print (1 + @[2, 3]" = true := by decide +kernel
  have hopen : (s.parse "print (1 + @[2, 3]").1.isOk = true := by decide +kernel
  constructor
  · cases hresult : (s.parse text).1 with
    | error b =>
      have hok : (s.parse text).1.isOk = true := by decide +kernel
      rw [hresult] at hok
      cases hok
    | ok stmts => exact ⟨stmts, rfl, herrors, (complete_entries_are_submitted s text).1 stmts hresult herrors⟩
  · refine ⟨hawaits, ?_⟩
    rcases (complete_entries_are_submitted s "print (1 + @[2, 3]").2 hawaits with ⟨b, hb⟩ | h
    · rw [hb] at hopen
      cases hopen
    · exact h

end ObjScript
