import ObjScript.Proofs.Parser.Joins
import ObjScript.Proofs.Parser.Source

/-!
# Parsing piece by piece

A token list that ends with a semicolon or with an `end` and is parsed without an error may be cut off from the list
that follows it: the parse of both together is that of the first and then that of the second, with the type names that
the first has introduced (`parse_append`).  The first list alone is read up to the seam, statement after statement,
and joined the same statements are read; from there on the parser goes through the second list as if it had begun
there.
-/

namespace ObjScript

open Parse

namespace Parse

variable {α : Type} {item : Parse (Option α)}

/-- One turn of a loop. -/
private theorem result_many_cons (item : Parse (Option α)) (t : Token) (turns : List Token) (c : Cursor) :
    (many item (t :: turns)).result c =
      match item.result c with
      | (.error b, c') => (.error b, c')
      | (.ok none, c') => (.ok [], c')
      | (.ok (some a), c') => (((many item turns).result c').1.map (a :: ·), ((many item turns).result c').2) := by
  rw [many, result_bind]
  rcases item.result c with ⟨b | _ | a, c'⟩
  · rfl
  · rfl
  · dsimp only
    rw [result_bind]
    rcases (many item turns).result c' with ⟨b | l, c''⟩
    · rfl
    · rfl

/-- One turn of a loop that ends without an error. -/
private theorem many_cons_ok (hmoves : Moves .forward item) {t : Token} {turns : List Token} {c c' : Cursor}
    {l : List α}
    (h : (many item (t :: turns)).result c = (.ok l, c')) (hc : c'.error? = none) :
    (item.result c = (.ok none, c') ∧ l = []) ∨
      ∃ a l' c₁, item.result c = (.ok (some a), c₁) ∧ c₁.error? = none ∧
        (many item turns).result c₁ = (.ok l', c') ∧ l = a :: l' := by
  rw [result_many_cons] at h
  rcases hitem : item.result c with ⟨b | _ | a, c₁⟩
  · rw [hitem] at h
    cases h
  · rw [hitem] at h
    cases h
    exact .inl ⟨rfl, rfl⟩
  · rw [hitem] at h
    dsimp only at h
    have hstays := (moves_many hmoves turns c₁).2
    rcases hrest : (many item turns).result c₁ with ⟨b | l', c₂⟩
    · rw [hrest] at h
      cases h
    · rw [hrest] at h hstays
      cases h
      rw [hc] at hstays
      exact .inr ⟨a, l', c₁, rfl, by simpa using hstays, hrest, rfl⟩

private theorem result_many_of_none {c : Cursor} (h : item.result c = (.ok none, c)) (t : Token)
    (turns : List Token) :
    (many item (t :: turns)).result c = (.ok [], c) := by
  rw [result_many_cons, h]

end Parse

variable {S : Seam} {k : Nat} {g : Grammar}

private theorem joins_topStatement? (hg : g.Joins S k) : Parse.Joins S k True (topStatement? g) Never := by
  refine .bind joins_atEnd fun _ => .bind joins_hadError fun _ => ?_
  split
  · exact .pure fun _ => trivial
  · exact .bind hg.start fun _ => .pure id

/-- Before the seam a statement is read, and joined it is the same one. -/
private theorem topStatement?_joined (hg : g.Joins S k) {T : Names} {X : List Token} {o : Option Stmt} {c : Cursor}
    (hX : Complete X) (hk : X.length < k) (hne : X ≠ [])
    (ho : (topStatement? g).result (S.alone T X) = (.ok o, c)) (hc : c.error? = none) :
    ∃ s T' Y, o = some s ∧ c = S.alone T' Y ∧ Complete Y ∧ Y.length < X.length ∧
      (topStatement? g).result (S.joined T X) = (.ok (some s), S.joined T' Y) := by
  obtain ⟨T', Y, hY, rfl, -, hjoined⟩ := (joins_topStatement? hg).joins T X hX hk (fun _ => hne) o c ho hc
  cases o with
  | some s =>
    have hlength := (advances_of_turns (turns_topStatement? hg.reads)).length_lt hX.inner hk ho
    exact ⟨s, T', Y, rfl, rfl, hY, hlength, hjoined⟩
  | none =>
    -- nothing is read only at the end or after an error
    obtain ⟨x, X, rfl⟩ := List.exists_cons_of_ne_nil hne
    have hgoes : ¬((S.alone T (x :: X)).atEnd || (S.alone T (x :: X)).error?.isSome) = true := by
      rw [S.alone_atEnd T hX.inner]
      exact Bool.false_ne_true
    rw [result_topStatement?, if_neg hgoes, map_eq_pure_bind, result_bind] at ho
    rcases hs : g.start.result (S.alone T (x :: X)) with ⟨b | s, c'⟩
    · rw [hs] at ho
      cases ho
    · rw [hs] at ho
      cases ho

/-- Past the seam the loop over the statements goes on with the text there, and has enough turns left for it. -/
private theorem many_topStatement?_joined (hg : g.Joins S k) (turns : List Token) :
    ∀ turns' T X l (c : Cursor), Complete X → X.length < k → X.length < turns.length →
      X.length + S.back.length < turns'.length →
      (many (topStatement? g) turns).result (S.alone T X) = (.ok l, c) → c.error? = none →
      ∃ more, S.back.length < more.length ∧
        (many (topStatement? g) turns').result (S.joined T X) =
          (((many (topStatement? g) more).result (S.joined c.typedefs [])).1.map (l ++ ·),
            ((many (topStatement? g) more).result (S.joined c.typedefs [])).2) := by
  induction turns with
  | nil => exact fun _ _ _ _ _ _ _ hturns => absurd hturns (Nat.not_lt_zero _)
  | cons t turns ih =>
    intro turns' T X l c hX hk hturns hmore hl hc
    cases X with
    | nil =>
      have hend : (topStatement? g).result (S.alone T []) = (.ok none, S.alone T []) := by
        rw [result_topStatement?, S.alone_atEnd T .nil]
        rfl
      rw [result_many_of_none hend] at hl
      cases hl
      refine ⟨turns', by simpa using hmore, Prod.ext ?_ rfl⟩
      exact congrFun Except.map_id.symm _
    | cons x X =>
      obtain ⟨t', turns', rfl⟩ : ∃ t' us, turns' = t' :: us := List.exists_cons_of_length_pos (by
        rw [List.length_cons] at hmore
        omega)
      simp only [List.length_cons] at hturns hmore
      rcases many_cons_ok (joins_topStatement? hg).moves hl hc with ⟨ho, -⟩ | ⟨s, l', c₁, ho, herr, hrest, rfl⟩
      · obtain ⟨s, -, -, hs, -⟩ := topStatement?_joined hg hX hk (List.cons_ne_nil x X) ho hc
        cases hs
      obtain ⟨s, T₁, Y, ⟨⟩, rfl, hY, hlength, hjoined⟩ :=
        topStatement?_joined hg hX hk (List.cons_ne_nil x X) ho herr
      rw [List.length_cons] at hk hlength
      obtain ⟨more, hback, hmany⟩ := ih turns' T₁ Y l' c hY (by omega) (by omega) (by omega) hrest hc
      refine ⟨more, hback, ?_⟩
      rw [result_many_cons, hjoined]
      dsimp only
      rw [hmany]
      refine Prod.ext ?_ rfl
      cases ((many (topStatement? g) more).result (S.joined c.typedefs [])).1 with
      | error b => rfl
      | ok l => rfl

/-- The loop over the statements looks no deeper than the tokens that are left, and it needs no more turns. -/
private theorem many_topStatement?_congr {m n : Nat} {turns turns' : List Token} {c : Cursor} (hc : Ended c.rest)
    (hm : c.rest.length ≤ m) (hn : c.rest.length ≤ n) (hturns : c.left ≤ turns.length)
    (hturns' : c.left ≤ turns'.length) :
    (many (topStatement? (grammar m)) turns).result c = (many (topStatement? (grammar n)) turns').result c :=
  have hitem := turns_topStatement? (grammar_reads c.rest.length n m hn hm)
  (readsAt_many hitem turns' turns c hc (Nat.le_refl _) hturns' hturns).1

/-- Statements that end with a semicolon or with an `end` and are parsed without an error may be cut off from the text
that follows them, unless that begins with an `else`. -/
theorem parse_append (typedefs : Names) (A B : List Token) (e : Token) (stmts : List Stmt) (c : Cursor)
    (hA : ∀ t ∈ A, t.kind ≠ .eof)
    (hlast : ∃ t, A.getLast? = some t ∧ (t.kind = .symbol .semi ∨ t.kind = .keyword .endWord))
    (hB : Ended B) (helse : ∀ t ∈ B.head?, t.kind ≠ .keyword .elseWord) (he : e.kind = .eof)
    (hparse : parse typedefs (A ++ [e]) = (.ok stmts, c)) (herror : c.error? = none) :
    parse typedefs (A ++ B) =
      ((parse c.typedefs B).1.map (stmts ++ ·), (parse c.typedefs B).2) := by
  have hne : B ≠ [] := List.ne_nil_of_length_pos hB.length_pos
  let S : Seam := ⟨e, B, he, hne, helse⟩
  have hcomplete : Complete A := by
    refine ⟨hA, fun t ht => ?_⟩
    obtain ⟨u, hu, hkind⟩ := hlast
    obtain rfl : u = t := Option.some.inj (hu.symm.trans ht)
    rcases hkind with hkind | hkind <;> rw [hkind] <;> rfl
  have hmore : (A ++ [e]).length ≤ (A ++ B).length := S.length_alone_le A
  have hlength : (A ++ B).length = A.length + B.length := List.length_append
  -- the turns of the loop alone, joined, and over the second list
  let turns : List Token := (S.alone typedefs A).current :: (A ++ [e])
  let turns' : List Token := (S.joined typedefs A).current :: (A ++ B)
  have hturns : A.length < turns.length := (S.turns typedefs A).1
  have hturns' : A.length + B.length < turns'.length := Nat.lt_succ_of_le (Nat.le_of_eq hlength.symm)
  -- deep enough for both lists
  let n := (A ++ B).length + 1
  have hA' : (A ++ [e]).length ≤ n := Nat.le_succ_of_le hmore
  have hB' : B.length ≤ n := by omega
  have halone : (many (topStatement? (grammar n)) turns).result (S.alone typedefs A) = (.ok stmts, c) := by
    refine Eq.trans ?_ ((result_program (S.alone typedefs A)).symm.trans hparse)
    exact many_topStatement?_congr (S.alone_ended typedefs hcomplete.inner) hA' (Nat.le_succ _) (Cursor.left_le _)
      (Cursor.left_le _)
  have hg : (grammar n).Joins S (A.length + 1) := grammar_joins S (A.length + 1) n (by omega)
  obtain ⟨more, hback, hjoined⟩ := many_topStatement?_joined hg turns turns' typedefs A stmts c hcomplete
    (Nat.lt_succ_self _) hturns hturns' halone herror
  have hrest : (many (topStatement? (grammar n)) more).result (S.joined c.typedefs []) = parse c.typedefs B := by
    refine Eq.trans ?_ (result_program (.ofTokens c.typedefs B)).symm
    exact many_topStatement?_congr hB hB' (Nat.le_succ _) hback (Cursor.left_le _)
  rw [hrest] at hjoined
  exact (result_program (S.joined typedefs A)).trans hjoined

/-- A typedef statement and then an assignment to a variable of that name: behind the statement it is malformed. -/
theorem parse_append_typedef :
    let A : List Token := [⟨.keyword .typedefWord, "typedef", ⟨1, 1⟩⟩, ⟨.keyword .intType, "int", ⟨1, 9⟩⟩,
      ⟨.ident, "Count", ⟨1, 13⟩⟩, ⟨.symbol .semi, ";", ⟨1, 18⟩⟩]
    let B : List Token := [⟨.ident, "Count", ⟨2, 1⟩⟩, ⟨.symbol .assign, "=", ⟨2, 7⟩⟩, ⟨.number, "1", ⟨2, 9⟩⟩,
      ⟨.symbol .semi, ";", ⟨2, 10⟩⟩, .eof ⟨2, 11⟩]
    Ended B ∧ ∃ stmts c, parse [] (A ++ [.eof ⟨1, 19⟩]) = (.ok stmts, c) ∧ c.error? = none ∧
      parse [] (A ++ B) = ((parse c.typedefs B).1.map (stmts ++ ·), (parse c.typedefs B).2) ∧
      (parse [] B).2.error? = none ∧ (parse [] (A ++ B)).2.error?.isSome = true := by
  intro A B
  have hB : Ended B := .more (by decide) (.more (by decide) (.more (by decide) (.more (by decide) (.last rfl))))
  have hA : ∀ t ∈ A, t.kind ≠ .eof := by decide
  have hlast : ∃ t, A.getLast? = some t ∧ (t.kind = .symbol .semi ∨ t.kind = .keyword .endWord) := ⟨_, rfl, .inl rfl⟩
  have helse : ∀ t ∈ B.head?, t.kind ≠ .keyword .elseWord := by decide
  have hok : (parse [] (A ++ [.eof ⟨1, 19⟩])).1.isOk = true := by decide +kernel
  have herror : (parse [] (A ++ [.eof ⟨1, 19⟩])).2.error? = none := by decide +kernel
  have halone : (parse [] B).2.error? = none := by decide +kernel
  have hjoined : (parse [] (A ++ B)).2.error?.isSome = true := by decide +kernel
  generalize hparse : parse [] (A ++ [.eof ⟨1, 19⟩]) = first at hok herror
  obtain ⟨b | stmts, c⟩ := first
  · cases hok
  · exact ⟨hB, stmts, c, rfl, herror,
      parse_append [] A B (.eof ⟨1, 19⟩) stmts c hA hlast hB helse rfl hparse herror, halone, hjoined⟩

end ObjScript
