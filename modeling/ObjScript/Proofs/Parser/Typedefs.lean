import ObjScript.Proofs.Parser.Moves

/-!
# Which type names a program introduces

The type names are the only thing that outlives the parse of a piece.  A typedef statement adds its name to them
as its last step, and it looks only at whether there is a type: a statement whose name is missing adds the
placeholder, one whose semicolon is missing adds its name, and both have noted an error by then.  A statement
without a type adds nothing (`TypedefRun.Outcome`).

So the names known after a parse are those known before and those of all typedef statements with a type
that the parser went through, the malformed ones among them (`parse_introduces`).
-/

namespace ObjScript

open Parse

/-- A typedef statement as it was read: the cursor at its keyword, its name and type, and the cursor behind it. -/
structure TypedefRun where
  start : Cursor
  name : Name
  type : TypeExpr
  stop : Cursor

/-- The parser for statements reads it so. -/
def TypedefRun.Valid (r : TypedefRun) : Prop :=
  r.start.current.kind = .keyword .typedefWord ∧
    ∃ n, (Parse.statement (grammar n)).result r.start = (.ok (.typeDef r.name r.type), r.stop)

/-- The cursor has moved on, and an error has stayed. -/
structure Cursor.Onward (c c' : Cursor) : Prop where
  suffix : c'.rest <:+ c.rest
  error : ∀ e, c.error? = some e → c'.error? = some e

/-- The cursor has moved on, and no name was introduced. -/
structure Cursor.Still (c c' : Cursor) : Prop extends c.Onward c' where
  typedefs : c'.typedefs = c.typedefs

/-- The cursor has moved on past the typedef statements of the list, and no other name was introduced. -/
inductive Cursor.Introduces (c : Cursor) : List TypedefRun → Cursor → Prop where
  | still {c' : Cursor} (h : c.Still c') : c.Introduces [] c'
  | run {runs : List TypedefRun} {r : TypedefRun} {c' : Cursor} (h : c.Introduces runs r.start) (hr : r.Valid)
      (hs : r.stop.Still c') : c.Introduces (runs ++ [r]) c'

/-- What a typedef statement comes to, whether an error has been noted or not. -/
structure TypedefRun.Outcome (r : TypedefRun) : Prop where
  onward : r.start.Onward r.stop
  /-- Without a type there is an error and no name. -/
  untyped : r.type = .missing → r.stop.error?.isSome = true ∧ r.stop.typedefs = r.start.typedefs
  /-- With a type there is a name, even if there is an error. -/
  typed : r.type ≠ .missing → r.stop.typedefs = r.start.typedefs.add r.name.text
  /-- The name is that of the block type or of the token behind the type; if that is no name, it is the
  placeholder. -/
  name : r.type ≠ .missing → r.type.blockName? = some r.name ∨
    (∃ t ∈ r.start.rest, t.kind = .ident ∧ t.toName = r.name) ∨ r.name.text = "ERROR" ∧ r.stop.error?.isSome = true

namespace Cursor

variable {c c₁ c₂ c₃ : Cursor}

private theorem Onward.trans (h : c₁.Onward c₂) (h' : c₂.Onward c₃) : c₁.Onward c₃ :=
  ⟨h'.suffix.trans h.suffix, fun e he => h'.error e (h.error e he)⟩

private theorem Onward.isSome (h : c₁.Onward c₂) (he : c₁.error?.isSome = true) : c₂.error?.isSome = true := by
  obtain ⟨e, he⟩ := Option.isSome_iff_exists.1 he
  rw [h.error e he]
  rfl

private theorem Still.refl (c : Cursor) : c.Still c :=
  ⟨⟨List.suffix_refl _, fun _ he => he⟩, rfl⟩

private theorem Still.trans (h : c₁.Still c₂) (h' : c₂.Still c₃) : c₁.Still c₃ :=
  ⟨h.toOnward.trans h'.toOnward, h'.typedefs.trans h.typedefs⟩

private theorem still_advance (c : Cursor) : c.Still c.advance := by
  unfold advance
  split
  · exact .refl c
  · exact ⟨⟨List.tail_suffix _, fun _ he => he⟩, rfl⟩

private theorem still_fail (c : Cursor) (fault : SyntaxFault) : c.Still (c.fail fault) := by
  unfold fail
  split
  · exact .refl c
  · next hnone => exact ⟨⟨List.suffix_refl _, fun e he => by rw [hnone] at he; cases he⟩, rfl⟩

private theorem still_cutOff (c : Cursor) : c.Still { c with unfinished := true } :=
  ⟨⟨List.suffix_refl _, fun _ h => h⟩, rfl⟩

/-- Both lists of statements, one after the other. -/
private theorem Introduces.trans {runs more : List TypedefRun} (h : c₁.Introduces runs c₂)
    (h' : c₂.Introduces more c₃) :
    c₁.Introduces (runs ++ more) c₃ := by
  induction h' with
  | still hs =>
    rw [List.append_nil]
    cases h with
    | still hs' => exact .still (hs'.trans hs)
    | run h hr hs' => exact .run h hr (hs'.trans hs)
  | run _ hr hs ih =>
    rw [← List.append_assoc]
    exact .run ih hr hs

end Cursor

/-- Moving on without a new name. -/
def Way.still : Way :=
  ⟨Cursor.Still, .refl, .trans, Cursor.still_advance, Cursor.still_fail, Cursor.still_cutOff⟩

/-- Moving on past typedef statements. -/
def Way.introducing : Way where
  rel c c' := ∃ runs, c.Introduces runs c'
  refl c := ⟨[], .still (.refl c)⟩
  trans := fun ⟨_, h⟩ ⟨_, h'⟩ => ⟨_, h.trans h'⟩
  advance c := ⟨[], .still c.still_advance⟩
  fail c fault := ⟨[], .still (c.still_fail fault)⟩
  cutOff c := ⟨[], .still c.still_cutOff⟩

/-! ### One typedef statement -/

private theorem BlockHeads.type_ne_missing (b : BlockHeads) {base : TypeExpr} (h : base ≠ .missing) :
    b.type base ≠ .missing := by
  unfold BlockHeads.type
  obtain ⟨heads, pending⟩ := b
  dsimp only
  induction heads generalizing base with
  | nil => exact h
  | cons head heads ih => exact ih nofun

/-- A sequence that gives a value has come through its first parser. -/
theorem exists_of_result_bind {α β : Type} {p : Parse α} {f : α → Parse β} {c c' : Cursor} {b : β}
    (h : (p >>= f).result c = (.ok b, c')) :
    ∃ a c₁, p.result c = (.ok a, c₁) ∧ (f a).result c₁ = (.ok b, c') := by
  rw [result_bind] at h
  split at h
  · next a c₁ ha => exact ⟨a, c₁, ha, h⟩
  · cases h

/-- A type that was read is not missing. -/
private theorem type?_ne_missing {n : Nat} {c c' : Cursor} {type : TypeExpr}
    (h : (grammar n).type?.result c = (.ok (some type), c')) : type ≠ .missing := by
  cases n with
  | zero => cases h
  | succ n =>
    obtain ⟨o, c₁, -, h⟩ := exists_of_result_bind (p := typeName?) h
    cases o with
    | none => cases h
    | some name =>
      obtain ⟨_, c₂, -, h⟩ := exists_of_result_bind h
      obtain ⟨opens, c₃, -, h⟩ := exists_of_result_bind h
      cases opens with
      | false =>
        cases h
        nofun
      | true =>
        obtain ⟨t, c₄, hblock, h⟩ := exists_of_result_bind h
        cases h
        obtain ⟨_, c₅, -, hblock⟩ := exists_of_result_bind hblock
        obtain ⟨_, c₆, -, hblock⟩ := exists_of_result_bind hblock
        obtain ⟨b, c₇, -, hblock⟩ := exists_of_result_bind hblock
        cases hblock
        exact BlockHeads.type_ne_missing b nofun

/-- A token that has to be there, or the placeholder. -/
private theorem result_expect_ident (c : Cursor) : ∃ t c', (expect .ident).result c = (.ok t, c') ∧ c.Still c' ∧
    (t ∈ c.rest ∧ t.kind = .ident ∨ t.text = "ERROR" ∧ c'.error?.isSome = true) := by
  unfold expect
  rw [result_expectOr]
  split
  · next hkind =>
    have hkind : c.current.kind = .ident := by simpa using hkind
    refine ⟨_, _, rfl, c.still_advance, .inl ⟨?_, hkind⟩⟩
    unfold Cursor.current at hkind ⊢
    cases hrest : c.rest with
    | nil => simp [hrest, Token.eof] at hkind
    | cons t rest => exact List.mem_cons_self
  · exact ⟨_, _, rfl, c.still_fail _, .inr ⟨rfl, c.fail_isSome _⟩⟩

private theorem result_expect (kind : Kind) (c : Cursor) :
    ∃ t c', (expect kind).result c = (.ok t, c') ∧ c.Still c' := by
  unfold expect
  rw [result_expectOr]
  split
  · exact ⟨_, _, rfl, c.still_advance⟩
  · exact ⟨_, _, rfl, c.still_fail _⟩

/-- The name of a typedef statement is in its type or comes from the token behind it. -/
private theorem result_typedefName (type : TypeExpr) (c : Cursor) :
    ∃ name c', (typedefName type).result c = (.ok name, c') ∧
    c.Still c' ∧ (type.blockName? = some name ∨ (∃ t ∈ c.rest, t.kind = .ident ∧ t.toName = name) ∨
      name.text = "ERROR" ∧ c'.error?.isSome = true) := by
  unfold typedefName
  cases hname : type.blockName? with
  | some name => exact ⟨name, c, rfl, .refl c, .inl rfl⟩
  | none =>
    obtain ⟨t, c', ht, hstill, hcases⟩ := result_expect_ident c
    refine ⟨t.toName, c', result_bind_ok ht, hstill, .inr ?_⟩
    rcases hcases with ⟨hmem, hkind⟩ | herror
    · exact .inl ⟨t, hmem, hkind, rfl⟩
    · exact .inr herror

/-- After its type a typedef statement always introduces a name. -/
private theorem result_typedefRest {type : TypeExpr} (hne : type ≠ .missing) {start c : Cursor}
    (hstart : start.Still c) :
    ∃ name c', (typedefRest type).result c = (.ok (.typeDef name type), c') ∧
      TypedefRun.Outcome ⟨start, name, type, c'⟩ := by
  obtain ⟨name, c₁, hname, hident, hcases⟩ := result_typedefName type c
  obtain ⟨t, c₂, ht, hsemi⟩ := result_expect (.symbol .semi) c₁
  have hall : start.Still c₂ := hstart.trans (hident.trans hsemi)
  refine ⟨name, { c₂ with typedefs := c₂.typedefs.add name.text }, ?_,
    ⟨hall.suffix, hall.error⟩, fun hm => absurd hm hne, fun _ => ?_, fun _ => ?_⟩
  · unfold typedefRest
    rw [result_bind_ok hname, result_bind_ok ht]
    rfl
  · rw [hall.typedefs]
  · rcases hcases with hblock | ⟨t, hmem, hkind, htext⟩ | ⟨htext, herror⟩
    · exact .inl hblock
    · exact .inr (.inl ⟨t, hstart.suffix.subset hmem, hkind, htext⟩)
    · exact .inr (.inr ⟨htext, hsemi.toOnward.isSome herror⟩)

/-- A typedef statement after its keyword: only its type could be stopped by a number. -/
private theorem result_typedefStatement (n : Nat) {start c : Cursor} (hstart : start.Still c) :
    (∃ b c', (typedefStatement (grammar n)).result c = (.error b, c') ∧ start.Still c') ∨
      ∃ name type c', (typedefStatement (grammar n)).result c = (.ok (.typeDef name type), c') ∧
        TypedefRun.Outcome ⟨start, name, type, c'⟩ := by
  have hmoves := moves_grammar_type? .still n c
  rw [typedefStatement_eq, result_bind]
  rcases ho : (grammar n).type?.result c with ⟨b | o, c₁⟩ <;> rw [ho] at hmoves
  · exact .inl ⟨b, c₁, rfl, hstart.trans hmoves⟩
  · have htype : start.Still c₁ := hstart.trans hmoves
    right
    cases o with
    | none =>
      obtain ⟨t, c₂, ht, hstill, -⟩ := result_expect_ident (c₁.fail .expectedTypedefType)
      have hall := htype.trans ((c₁.still_fail .expectedTypedefType).trans hstill)
      have herror := hstill.toOnward.isSome (c₁.fail_isSome .expectedTypedefType)
      refine ⟨t.toName, .missing, c₂, ?_, hall.toOnward, fun _ => ⟨herror, hall.typedefs⟩, fun hne => absurd rfl hne,
        fun hne => absurd rfl hne⟩
      dsimp only
      rw [result_bind_ok (result_fail _ _), result_bind_ok ht]
      rfl
    | some type =>
      obtain ⟨name, c₂, hrest, houtcome⟩ := result_typedefRest (type?_ne_missing ho) htype
      exact ⟨name, type, c₂, hrest, houtcome⟩

theorem result_statement_typedef {g : Grammar} {c : Cursor} (h : c.current.kind = .keyword .typedefWord) :
    (Parse.statement g).result c = (typedefStatement g).result c.advance := by
  unfold Parse.statement
  rw [result_bind_ok (result_current c), h]
  rfl

private theorem TypedefRun.Valid.outcome {r : TypedefRun} (h : r.Valid) : r.Outcome := by
  obtain ⟨start, name, type, stop⟩ := r
  obtain ⟨hkind, n, hr⟩ := h
  rw [result_statement_typedef hkind] at hr
  rcases result_typedefStatement n start.still_advance with ⟨b, c', herror, -⟩ | ⟨name', type', c', hok, houtcome⟩
  · rw [herror] at hr
    cases hr
  · rw [hok] at hr
    cases hr
    exact houtcome

/-! ### All of them -/

theorem typedefMoves_introducing (n : Nat) : TypedefMoves .introducing (grammar n) := by
  intro c hkind
  have hresult := result_statement_typedef (g := grammar n) hkind
  rcases result_typedefStatement n c.still_advance with ⟨b, c', herror, hstill⟩ | ⟨name, type, c', hok, -⟩
  · rw [hresult, herror]
    exact ⟨[], .still hstill⟩
  · rw [hresult, hok]
    exact ⟨[⟨c, name, type, c'⟩], .run (.still (.refl c)) ⟨hkind, n, hresult.trans hok⟩ (.refl c')⟩

/-- The names that are known behind typedef statements. -/
private theorem Cursor.Introduces.mem_typedefs {c c' : Cursor} {runs : List TypedefRun} (h : c.Introduces runs c')
    (x : String) :
    x ∈ c'.typedefs ↔ x ∈ c.typedefs ∨ ∃ r ∈ runs, r.type ≠ .missing ∧ r.name.text = x := by
  induction h with
  | still h => simp [h.typedefs]
  | @run runs r c' _ hr hs ih =>
    have houtcome := hr.outcome
    rw [hs.typedefs]
    by_cases hmissing : r.type = .missing
    · simp [(houtcome.untyped hmissing).2, ih, hmissing]
    · rw [houtcome.typed hmissing, Names.mem_add, ih]
      grind

private theorem Cursor.Introduces.valid {c c' : Cursor} {runs : List TypedefRun} (h : c.Introduces runs c') :
    ∀ r ∈ runs, r.Valid := by
  induction h with
  | still => exact List.forall_mem_nil _
  | run _ hr _ ih => exact List.forall_mem_append.2 ⟨ih, List.forall_mem_singleton.2 hr⟩

private theorem Cursor.Introduces.onward {c c' : Cursor} {runs : List TypedefRun} (h : c.Introduces runs c') :
    c.Onward c' := by
  induction h with
  | still h => exact h.toOnward
  | run _ hr hs ih => exact ih.trans (hr.outcome.onward.trans hs.toOnward)

/-- Without a typedef statement ahead there is no new name. -/
theorem Cursor.Introduces.typedefs_eq {c c' : Cursor} {runs : List TypedefRun} (h : c.Introduces runs c')
    (hno : ∀ t ∈ c.rest, t.kind ≠ .keyword .typedefWord) : c'.typedefs = c.typedefs := by
  cases h with
  | still h => exact h.typedefs
  | @run _ r _ h hr _ =>
    obtain ⟨⟨_ | ⟨t, rest⟩, _, _, _⟩, name, type, stop⟩ := r
    · cases hr.1
    · exact absurd hr.1 (hno t (h.onward.suffix.subset List.mem_cons_self))

/-- After every parse exactly those names are known that were known before or belong to a typedef statement with
a type that the parser went through.  It makes no difference whether the statement was completed or an error was
noted before its end, and so the placeholder for a missing name is one of the names. -/
theorem parse_introduces (typedefs : Names) (tokens : List Token) :
    ∃ runs, (Cursor.ofTokens typedefs tokens).Introduces runs (parse typedefs tokens).2 ∧ (∀ r ∈ runs, r.Outcome) ∧
      ∀ x, x ∈ (parse typedefs tokens).2.typedefs ↔
        x ∈ typedefs ∨ ∃ r ∈ runs, r.type ≠ .missing ∧ r.name.text = x := by
  obtain ⟨runs, hruns⟩ := moves_program typedefMoves_introducing (.ofTokens typedefs tokens)
  exact ⟨runs, hruns, fun r hr => (hruns.valid r hr).outcome, hruns.mem_typedefs⟩

/-- The name is missing: the placeholder becomes a type name. -/
example : (parse [] [⟨.keyword .typedefWord, "typedef", ⟨1, 1⟩⟩, ⟨.keyword .intType, "int", ⟨1, 9⟩⟩,
    ⟨.symbol .semi, ";", ⟨1, 12⟩⟩, .eof ⟨1, 13⟩]).2.typedefs = ["ERROR"] := by decide +kernel

end ObjScript
