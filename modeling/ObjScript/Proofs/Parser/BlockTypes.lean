import ObjScript.Proofs.Parser.Yield

/-!
# Nested block types

`R (^(^name)(Q))(P)` is the type of a block `name` that takes `Q` and returns a block that takes `P` and
returns `R`.  `Carets` says which tokens write down such a type, with any number of blocks inside each other,
and `SpellsType` which tokens write down a type at all.

The parser opens one block before its loop and at most one more in each turn, and a turn that does not come
to a closing bracket notes an error.  So two blocks inside each other are read back, their parameters with
them, and at the bracket that opens a third one every such type is malformed (`nested_block_types`).
-/

namespace ObjScript

open Parse

/-- A block type that returns a block type and so on.  The first list of parameters is that of the innermost
return type; the last one belongs to the block as a whole, which alone may have a name. -/
def TypeExpr.nested (name : Option Name) : TypeExpr → List (List TypeExpr) → TypeExpr
  | base, [] => base
  | base, [params] => .block base name params
  | base, params :: inner => nested name (.block base none params) inner

/-! ### The tokens of a type -/

/-- A type name, perhaps with a star. -/
def SpellsBase (td : Names) (us : List Token) (t : Token) : Prop :=
  (t.kind.opensType = true ∨ t.kind = .ident ∧ td.contains t.text = true) ∧
    (us = [t] ∨ ∃ star, us = [t, star] ∧ star.kind = .symbol .star)

/-- Items with commas between them, if there are any. -/
def SpellsList {α : Type} (P : List Token → α → Prop) (us : List Token) (l : List α) : Prop :=
  us = [] ∧ l = [] ∨ ∃ u v a l', us = u ++ v ∧ l = a :: l' ∧ P u a ∧ Tail P v l'

/-- The tokens `(^`. -/
def Opens (us : List Token) : Prop :=
  ∃ bracket caret, us = [bracket, caret] ∧ bracket.kind = .symbol .lpar ∧ caret.kind = .symbol .caret

/-- The tokens `)(params)`. -/
def Closes (P : List Token → List TypeExpr → Prop) (us : List Token) (params : List TypeExpr) : Prop :=
  ∃ close bracket vs last, us = close :: bracket :: (vs ++ [last]) ∧ close.kind = .symbol .rpar ∧
    bracket.kind = .symbol .lpar ∧ P vs params ∧ last.kind = .symbol .rpar

/-- The tokens `(^…(^name)(Pn)…)(P1)` with the lists of parameters `P1`, …, `Pn`. -/
inductive Carets (P : List Token → List TypeExpr → Prop) (name : Option Token) :
    List Token → List (List TypeExpr) → Prop where
  | one {us vs : List Token} {params : List TypeExpr} (ho : Opens us) (hc : Closes P vs params) :
      Carets P name (us ++ (name.toList ++ vs)) [params]
  | around {us ws vs : List Token} {params : List TypeExpr} {inner : List (List TypeExpr)} (ho : Opens us)
      (hi : Carets P name ws inner) (hc : Closes P vs params) : Carets P name (us ++ (ws ++ vs)) (params :: inner)

/-- The tokens of a type.  Its parameters have parameters of their own and so on up to `depth`, and no block
type in it consists of more than `carets` blocks inside each other. -/
def SpellsType (td : Names) (carets : Nat) : Nat → List Token → TypeExpr → Prop
  | 0, us, type => ∃ t, SpellsBase td us t ∧ type = .named t
  | depth + 1, us, type => ∃ vs t, SpellsBase td vs t ∧ (us = vs ∧ type = .named t ∨
      ∃ ws name lists, us = vs ++ ws ∧ (∀ t ∈ name, t.kind = .ident) ∧ lists.length ≤ carets ∧
        Carets (SpellsList (SpellsType td carets depth)) name ws lists ∧
        type = .nested (name.map Token.toName) (.named t) lists)

private theorem Carets.ne_nil {P : List Token → List TypeExpr → Prop} {name : Option Token} {us : List Token}
    {lists : List (List TypeExpr)} (h : Carets P name us lists) : lists ≠ [] := by
  cases h <;> simp

private theorem Carets.opens {P : List Token → List TypeExpr → Prop} {name : Option Token} {us : List Token}
    {lists : List (List TypeExpr)} (h : Carets P name us lists) : ∃ vs ws, us = vs ++ ws ∧ Opens vs := by
  cases h with
  | one ho _ | around ho _ _ => exact ⟨_, _, rfl, ho⟩

namespace Parse

variable {td : Names} {g : Grammar} {P : List Token → List TypeExpr → Prop} {t : Token} {us ts : List Token}

/-! ### Lists of types -/

/-- The parser gets the type back from the tokens, before a token that does not go on with it. -/
def ReadsType (p : Parse (Option TypeExpr)) (td : Names) (us : List Token) (type : TypeExpr) : Prop :=
  ∀ t ts, t.kind ≠ .symbol .star → t.kind ≠ .symbol .lpar →
    p.result (.ofTokens td (us ++ t :: ts)) = (.ok (some type), .ofTokens td (t :: ts))

/-- The parser finds no type before a closing bracket. -/
def FindsNone (p : Parse (Option TypeExpr)) (td : Names) : Prop :=
  ∀ t ts, t.kind = .symbol .rpar → p.result (.ofTokens td (t :: ts)) = (.ok none, .ofTokens td (t :: ts))

/-- A type of a list is followed by a comma or by the closing bracket. -/
private theorem head_of_tail {α : Type} {Q : List Token → α → Prop} {l : List α} (h : Tail Q us l)
    (ht : t.kind = .symbol .rpar) (ts : List Token) : ∃ next rest, us ++ t :: ts = next :: rest ∧
      next.kind ≠ .symbol .star ∧ next.kind ≠ .symbol .lpar := by
  cases h with
  | nil => exact ⟨t, ts, rfl, by simp [ht], by simp [ht]⟩
  | cons hc _ _ => exact ⟨_, _, rfl, by simp [hc], by simp [hc]⟩

private theorem rounds_tail {p : Parse (Option TypeExpr)} {l : List TypeExpr} (h : Tail (ReadsType p td) us l)
    (ht : t.kind = .symbol .rpar) (ts : List Token) :
    Rounds (do if ← accept (.symbol .comma) then return some (← p) else return none)
      (.ofTokens td (us ++ t :: ts)) (l.map some) (.ofTokens td (t :: ts)) := by
  induction h with
  | nil =>
    have hnone : (accept (.symbol .comma)).result (.ofTokens td (t :: ts)) = (.ok false, _) :=
      result_accept_ne (by simp [ht])
    refine .stop ?_
    rw [List.nil_append, result_bind_ok hnone]
    rfl
  | cons hcomma hu hs ih =>
    obtain ⟨next, rest, hnext, hstar, hlpar⟩ := head_of_tail hs ht ts
    rw [hnext] at ih
    rw [List.cons_append, List.append_assoc, hnext]
    refine .turn ?_ ?_ ih
    · rw [result_bind_ok (result_accept_cons hcomma nofun), if_pos rfl, result_bind_ok (hu next rest hstar hlpar)]
      rfl
    · simp only [Cursor.rest_ofTokens, List.length_cons, List.length_append]
      omega

/-- A list of types before its closing bracket. -/
private theorem result_typeList {l : List TypeExpr} (hnone : FindsNone g.type? td)
    (h : SpellsList (ReadsType g.type? td) us l) (ht : t.kind = .symbol .rpar) :
    (typeList g).result (.ofTokens td (us ++ t :: ts)) = (.ok l, .ofTokens td (t :: ts)) := by
  unfold typeList commaSeparated
  simp only [bind_assoc]
  rcases h with ⟨rfl, rfl⟩ | ⟨u, v, a, l, rfl, rfl, hu, hv⟩
  · have hnil : Tail (ReadsType g.type? td) [] [] := .nil
    have htail := (rounds_tail hnil ht ts).repeated
    rw [List.nil_append] at htail ⊢
    rw [result_bind_ok (hnone t ts ht), result_bind_ok htail]
    rfl
  · obtain ⟨next, rest, hnext, hstar, hlpar⟩ := head_of_tail hv ht ts
    have htail := (rounds_tail hv ht ts).repeated
    have hl : (some a :: l.map some).filterMap id = a :: l := by simp
    rw [List.append_assoc, hnext, result_bind_ok (hu next rest hstar hlpar), ← hnext, result_bind_ok htail, pure_bind,
      result_pure, hl]

/-! ### The turns of the loop -/

private theorem opensBlockType_append (h : Opens us) (td : Names) (ts : List Token) :
    opensBlockType.result (.ofTokens td (us ++ ts)) = (.ok true, .ofTokens td (us ++ ts)) := by
  obtain ⟨bracket, caret, rfl, hb, hc⟩ := h
  unfold opensBlockType
  rw [result_bind_ok (result_get _), result_pure]
  simp [Cursor.ofTokens, Cursor.current, Cursor.second, Token.is, hb, hc]

private theorem opensBlockType_ne (h : t.kind ≠ .symbol .lpar) :
    opensBlockType.result (.ofTokens td (t :: ts)) = (.ok false, .ofTokens td (t :: ts)) := by
  unfold opensBlockType
  rw [result_bind_ok (result_get _), result_pure]
  simp [Token.is, h]

/-- A turn that opens a block. -/
private theorem result_blockHead?_opens {blocks : BlockHeads} (hb : blocks.pending ≠ []) (h : Opens us) (td : Names)
    (ts : List Token) :
    (blockHead? g blocks).result (.ofTokens td (us ++ ts)) =
      (closedBlock g blocks.opened).result (.ofTokens td ts) := by
  have hopens := opensBlockType_append h td ts
  obtain ⟨bracket, caret, rfl, hbracket, hcaret⟩ := h
  simp only [List.cons_append, List.nil_append] at hopens ⊢
  rw [blockHead?_eq, result_bind_ok (result_hadError _), if_neg (by simp [Cursor.ofTokens, hb])]
  unfold innermostBlock
  rw [bind_assoc, result_bind_ok hopens, if_pos rfl, bind_assoc,
    result_bind_ok (result_advance_cons (by simp [hbracket])),
    bind_assoc, result_bind_ok (result_advance_cons (by simp [hcaret])), pure_bind]

/-- A turn that opens nothing. -/
private theorem result_blockHead?_ne {blocks : BlockHeads} (hb : blocks.pending ≠ []) (h : t.kind ≠ .symbol .lpar) :
    (blockHead? g blocks).result (.ofTokens td (t :: ts)) =
      (closedBlock g blocks).result (.ofTokens td (t :: ts)) := by
  rw [blockHead?_eq, result_bind_ok (result_hadError _), if_neg (by simp [Cursor.ofTokens, hb])]
  unfold innermostBlock
  rw [bind_assoc, result_bind_ok (opensBlockType_ne h), if_neg nofun, pure_bind]

/-- No turn begins once every block is closed or an error has been noted. -/
private theorem result_blockHead?_stop {blocks : BlockHeads} {c : Cursor}
    (h : blocks.pending = [] ∨ c.error?.isSome = true) : (blockHead? g blocks).result c = (.ok none, c) := by
  unfold blockHead?
  rw [result_bind_ok (result_hadError c), if_pos (by rcases h with h | h <;> simp [h])]
  rfl

/-- The parsers of the parts read the lists of parameters. -/
def ReadsParams (g : Grammar) (td : Names) (P : List Token → List TypeExpr → Prop) : Prop :=
  ∀ us params, P us params → ∀ t ts, t.kind = .symbol .rpar →
    (typeList g).result (.ofTokens td (us ++ t :: ts)) = (.ok params, .ofTokens td (t :: ts))

private theorem result_closedBlock {name : Option Token} {params : List TypeExpr} (hP : ReadsParams g td P)
    (hname : ∀ t ∈ name, t.kind = .ident) (h : Closes P us params) (blocks : BlockHeads) (ts : List Token) :
    (closedBlock g blocks).result (.ofTokens td (name.toList ++ (us ++ ts))) =
      (.ok (some (blocks.closed ⟨name.map Token.toName, params⟩)), .ofTokens td ts) := by
  obtain ⟨close, bracket, vs, last, rfl, hclose, hbracket, hvs, hlast⟩ := h
  simp only [List.cons_append, List.append_assoc, List.nil_append]
  have hread : (accept? (· = .ident)).result
      (.ofTokens td (name.toList ++ close :: bracket :: (vs ++ last :: ts))) =
        (.ok name, .ofTokens td (close :: bracket :: (vs ++ last :: ts))) := by
    cases name with
    | none => rw [result_accept?, if_neg (by simp [hclose])]; rfl
    | some t =>
      have ht : t.kind = .ident := hname t rfl
      have hadv : (Cursor.ofTokens td (t :: close :: bracket :: (vs ++ last :: ts))).advance = .ofTokens td _ :=
        congrArg Prod.snd (result_advance_cons (by simp [ht]))
      rw [Option.toList_some, List.singleton_append, result_accept?, if_pos (by simp [ht])]
      exact congrArg _ hadv
  unfold closedBlock
  rw [result_bind_ok hread, result_bind_ok (result_accept_cons hclose nofun), if_pos rfl,
    result_bind_ok (result_expect_cons hbracket nofun), result_bind_ok (hP vs params hvs last ts hlast),
    result_bind_ok (result_expect_cons hlast nofun), result_pure]

/-- A turn that comes to a bracket which opens another block. -/
private theorem result_closedBlock_malformed {blocks : BlockHeads} (h : t.kind = .symbol .lpar) :
    (closedBlock g blocks).result (.ofTokens td (t :: ts)) =
      (.ok (some blocks.abandoned), (Cursor.ofTokens td (t :: ts)).fail .malformedBlockType) := by
  unfold closedBlock
  rw [result_bind, result_accept?, if_neg (by simp [h])]
  dsimp only
  rw [result_bind_ok (result_accept_ne (by simp [h])), if_neg nofun, result_bind_ok (result_fail _ _), result_pure]

/-- What comes before the closing bracket of a block is no other bracket. -/
private theorem head_of_closes {name : Option Token} {params : List TypeExpr} (hname : ∀ t ∈ name, t.kind = .ident)
    (h : Closes P us params) (ts : List Token) :
    ∃ next rest, name.toList ++ (us ++ ts) = next :: rest ∧ next.kind ≠ .symbol .lpar := by
  obtain ⟨close, bracket, vs, last, rfl, hclose, -⟩ := h
  cases name with
  | none => exact ⟨close, _, rfl, by simp [hclose]⟩
  | some t => exact ⟨t, _, rfl, by simp [hname t rfl]⟩

/-- A turn that closes the innermost block. -/
private theorem result_blockHead?_closes {blocks : BlockHeads} {name : Option Token} {params : List TypeExpr}
    (hP : ReadsParams g td P) (hb : blocks.pending ≠ []) (hname : ∀ t ∈ name, t.kind = .ident)
    (h : Closes P us params) (ts : List Token) :
    (blockHead? g blocks).result (.ofTokens td (name.toList ++ (us ++ ts))) =
      (.ok (some (blocks.closed ⟨name.map Token.toName, params⟩)), .ofTokens td ts) := by
  obtain ⟨next, rest, hnext, hne⟩ := head_of_closes hname h ts
  have hclose := result_closedBlock hP hname h blocks ts
  rw [hnext] at hclose ⊢
  exact (result_blockHead?_ne hb hne).trans hclose

/-! ### Block types -/

private theorem result_blockType_opens (h : Opens us) (base : TypeExpr) (td : Names) (ts : List Token) :
    (blockType g base).result (.ofTokens td (us ++ ts)) =
      (extend (BlockHeads.opened ⟨[], []⟩) (blockHead? g) >>= fun b => pure (b.type base)).result
        (.ofTokens td ts) := by
  obtain ⟨bracket, caret, rfl, hbracket, hcaret⟩ := h
  unfold blockType
  rw [List.cons_append, result_bind_ok (result_expect_cons hbracket nofun), List.cons_append,
    result_bind_ok (result_expect_cons hcaret nofun)]
  rfl

/-- One block, or two of them inside each other. -/
private theorem result_blockType {name : Option Token} {lists : List (List TypeExpr)} (hP : ReadsParams g td P)
    (hname : ∀ t ∈ name, t.kind = .ident) (h : Carets P name us lists) (hl : lists.length ≤ 2) (base : TypeExpr)
    (ts : List Token) :
    (blockType g base).result (.ofTokens td (us ++ ts)) =
      (.ok (.nested (name.map Token.toName) base lists), .ofTokens td ts) := by
  have shorter {u vs ts : List Token} {params : List TypeExpr} (hc : Closes P vs params) :
      (Cursor.ofTokens td ts).rest.length < (Cursor.ofTokens td (u ++ (vs ++ ts))).rest.length := by
    obtain ⟨close, bracket, ws, last, rfl, -⟩ := hc
    simp only [Cursor.rest_ofTokens, List.length_append, List.length_cons]
    omega
  cases h with
  | @one us vs params ho hc =>
    have hloop : Loop (blockHead? g) (BlockHeads.opened ⟨[], []⟩) (.ofTokens td (name.toList ++ (vs ++ ts)))
        ⟨[⟨name.map Token.toName, params⟩], []⟩ (.ofTokens td ts) :=
      .turn (result_blockHead?_closes hP (by simp [BlockHeads.opened]) hname hc ts) (shorter hc)
        (.stop (result_blockHead?_stop (.inl rfl)))
    rw [List.append_assoc, List.append_assoc, result_blockType_opens ho, result_bind_ok hloop.extend]
    rfl
  | @around us ws vs params inner ho hi hc =>
    cases hi with
    | @one us' vs' params' ho' hc' =>
      let open₂ : BlockHeads := (BlockHeads.opened ⟨[], []⟩).opened
      let open₁ : BlockHeads := open₂.closed ⟨name.map Token.toName, params'⟩
      have hfirst : (blockHead? g (.opened ⟨[], []⟩)).result
          (.ofTokens td (us' ++ (name.toList ++ (vs' ++ (vs ++ ts))))) =
            (.ok (some open₁), .ofTokens td (vs ++ ts)) :=
        (result_blockHead?_opens (by simp [BlockHeads.opened]) ho' td _).trans
          (result_closedBlock hP hname hc' open₂ _)
      have hsecond : (blockHead? g open₁).result (.ofTokens td (vs ++ ts)) =
          (.ok (some (open₁.closed ⟨none, params⟩)), .ofTokens td ts) :=
        result_blockHead?_closes hP (by simp [open₁, open₂, BlockHeads.opened, BlockHeads.closed])
          (show ∀ t ∈ (none : Option Token), t.kind = .ident by simp) hc ts
      have hlt : (Cursor.ofTokens td (vs ++ ts)).rest.length <
          (Cursor.ofTokens td (us' ++ (name.toList ++ (vs' ++ (vs ++ ts))))).rest.length := by
        rw [← List.append_assoc]
        exact shorter hc'
      have hloop :=
        Loop.turn hfirst hlt (.turn hsecond (shorter (u := []) hc) (.stop (result_blockHead?_stop (.inl rfl))))
      simp only [List.append_assoc]
      rw [result_blockType_opens ho, result_bind_ok hloop.extend]
      rfl
    | around _ hi' _ =>
      have := List.length_pos_of_ne_nil hi'.ne_nil
      simp only [List.length_cons] at hl
      omega

/-- With three blocks or more inside each other the third bracket notes an error. -/
private theorem result_blockType_malformed {name : Option Token} {lists : List (List TypeExpr)}
    (h : Carets P name us lists) (hl : 3 ≤ lists.length) (g : Grammar) (base : TypeExpr) (td : Names)
    (ts : List Token) :
    ∃ front bracket after, us = front ++ bracket :: after ∧
      front.map Token.kind = [.symbol .lpar, .symbol .caret, .symbol .lpar, .symbol .caret] ∧
      bracket.kind = .symbol .lpar ∧
      (blockType g base).result (.ofTokens td (us ++ ts)) =
        (.ok (.block (.block base none []) none []),
          (Cursor.ofTokens td (bracket :: (after ++ ts))).fail .malformedBlockType) := by
  obtain _ | ⟨ho, _ | ⟨ho', hi, hc'⟩, hc⟩ := h
  · simp at hl
  · simp at hl
  · rename_i us vs params us' ws vs' params' inner
    obtain ⟨_, us'', rfl, bracket, caret, rfl, hb, -⟩ := hi.opens
    let third : List Token := bracket :: caret :: (us'' ++ (vs' ++ (vs ++ ts)))
    have hfirst : (blockHead? g (.opened ⟨[], []⟩)).result (.ofTokens td (us' ++ third)) =
        (.ok (some (BlockHeads.opened ⟨[], []⟩).opened.abandoned),
          (Cursor.ofTokens td third).fail .malformedBlockType) :=
      (result_blockHead?_opens (by simp [BlockHeads.opened]) ho' td third).trans (result_closedBlock_malformed hb)
    have hloop := Loop.turn hfirst ?_ (.stop (result_blockHead?_stop (.inl rfl)))
    · have htype : (BlockHeads.opened ⟨[], []⟩).opened.abandoned.type base = .block (.block base none []) none [] :=
        rfl
      have hresult := result_blockType_opens (g := g) ho base td (us' ++ third)
      rw [result_bind_ok hloop.extend, htype] at hresult
      obtain ⟨b, c, rfl, hb₁, hc₁⟩ := ho
      obtain ⟨b', c', rfl, hb₂, hc₂⟩ := ho'
      refine ⟨[b, c, b', c'], bracket, caret :: (us'' ++ (vs' ++ vs)), by simp, by simp [hb₁, hc₁, hb₂, hc₂], hb, ?_⟩
      simpa using hresult
    · obtain ⟨b', c', rfl, -⟩ := ho'
      simp

/-! ### Types -/

/-- A type name before a token that is no star. -/
private theorem result_type?_base (h : SpellsBase td us t) {next : Token} (hnext : next.kind ≠ .symbol .star) :
    (Parse.type? g).result (.ofTokens td (us ++ next :: ts)) =
      (do if ← opensBlockType then return some (← blockType g (.named t)) else return some (.named t)).result
        (.ofTokens td (next :: ts)) := by
  obtain ⟨hopens, hus⟩ := h
  have hkind : t.kind ≠ .eof := by
    rintro hk
    rcases hopens with h | ⟨h, -⟩ <;> rw [hk] at h <;> cases h
  have hname : ∀ rest, typeName?.result (.ofTokens td (t :: rest)) = (.ok (some t), .ofTokens td rest) := by
    intro rest
    have hadv : (Cursor.ofTokens td (t :: rest)).advance = .ofTokens td rest :=
      congrArg Prod.snd (result_advance_cons hkind)
    unfold typeName?
    rw [result_bind_ok (result_get _), result_accept?, if_pos]
    · exact congrArg _ hadv
    · show (t.kind.opensType || (t.kind = .ident && td.contains t.text)) = true
      rcases hopens with h | ⟨h, h'⟩
      · rw [h, Bool.true_or]
      · rw [h, h']
        rfl
  unfold Parse.type?
  rcases hus with rfl | ⟨star, rfl, hstar⟩
  · rw [List.singleton_append, result_bind_ok (hname _)]
    dsimp only
    rw [result_bind_ok (result_accept_ne hnext)]
  · rw [List.cons_append, List.singleton_append, result_bind_ok (hname _)]
    dsimp only
    rw [result_bind_ok (result_accept_cons hstar nofun)]

private theorem findsNone_type? (g : Grammar) : FindsNone (Parse.type? g) td := by
  intro t ts ht
  unfold Parse.type? typeName?
  rw [bind_assoc, result_bind_ok (result_get _), result_bind, result_accept?, if_neg (by simp [ht, Kind.opensType])]
  rfl

private theorem Tail.imp {α : Type} {Q R : List Token → α → Prop} (h : ∀ us a, Q us a → R us a) {us : List Token}
    {l : List α} (ht : Tail Q us l) : Tail R us l := by
  induction ht with
  | nil => exact .nil
  | cons hk hu _ ih => exact .cons hk (h _ _ hu) ih

private theorem readsParams_grammar {k : Nat} {Q : List Token → TypeExpr → Prop}
    (h : ∀ us type, Q us type → ReadsType (grammar (k + 1)).type? td us type) :
    ReadsParams (grammar (k + 1)) td (SpellsList Q) := by
  rintro us params hps t ts ht
  refine result_typeList (findsNone_type? (grammar k)) ?_ ht
  rcases hps with hnil | ⟨u, v, a, l, hus, hl, hu, hv⟩
  · exact .inl hnil
  · exact .inr ⟨u, v, a, l, hus, hl, h u a hu, hv.imp h⟩

/-- A type whose blocks are at most two inside each other is read back, however deep its parameters go. -/
private theorem readsType_grammar {carets : Nat} (hc : carets ≤ 2) (depth : Nat) : ∀ {k : Nat}, depth < k →
    ∀ us type, SpellsType td carets depth us type → ReadsType (grammar k).type? td us type := by
  have plain : ∀ {k : Nat} {us : List Token} {t : Token}, SpellsBase td us t →
      ReadsType (Parse.type? (grammar k)) td us (.named t) := by
    intro k us t h next ts hstar hlpar
    rw [result_type?_base h hstar, result_bind_ok (opensBlockType_ne hlpar)]
    rfl
  induction depth with
  | zero =>
    rintro (_ | k) hk us type h
    · omega
    · obtain ⟨t, hbase, rfl⟩ := h
      exact plain hbase
  | succ depth ih =>
    rintro (_ | k) hk us type h
    · omega
    · obtain ⟨vs, t, hbase, ⟨rfl, rfl⟩ | ⟨ws, name, lists, rfl, hname, hlen, hws, rfl⟩⟩ := h
      · exact plain hbase
      · intro next ts hstar hlpar
        obtain ⟨k, rfl⟩ : ∃ j, k = j + 1 := ⟨k - 1, by omega⟩
        have hP : ReadsParams (grammar (k + 1)) td (SpellsList (SpellsType td carets depth)) :=
          readsParams_grammar (ih (by omega))
        obtain ⟨front, back, rfl, ho⟩ := hws.opens
        have hopens := opensBlockType_append ho td (back ++ next :: ts)
        have hblock := result_blockType hP hname hws (by omega) (.named t) (next :: ts)
        obtain ⟨bracket, caret, rfl, hb, -⟩ := ho
        simp only [List.cons_append, List.append_assoc, List.nil_append] at hopens hblock ⊢
        show (Parse.type? (grammar (k + 1))).result _ = _
        rw [result_type?_base hbase (by simp [hb]), result_bind_ok hopens, if_pos rfl,
          result_bind_ok hblock, result_pure]

end Parse

/-- Where a type name is followed by the tokens of blocks inside each other, every parser that the program uses
there reads one block or two of them back, with all their parameters, and stops behind them.  With three or more
it stops at the bracket of the third one and says that the type is malformed. -/
theorem nested_block_types {td : Names} {carets depth : Nat} {us ws ts : List Token} {t : Token}
    {name : Option Token} {lists : List (List TypeExpr)} (hbase : SpellsBase td us t)
    (hname : ∀ t ∈ name, t.kind = .ident) (hws : Carets (SpellsList (SpellsType td carets depth)) name ws lists)
    (hend : Ended (us ++ (ws ++ ts))) {n : Nat} (hn : (us ++ (ws ++ ts)).length ≤ n) :
    (carets ≤ 2 → lists.length ≤ 2 → (grammar n).type?.result (.ofTokens td (us ++ (ws ++ ts))) =
      (.ok (some (.nested (name.map Token.toName) (.named t) lists)), .ofTokens td ts)) ∧
    (3 ≤ lists.length → ∃ front bracket after, ws = front ++ bracket :: after ∧
      front.map Token.kind = [.symbol .lpar, .symbol .caret, .symbol .lpar, .symbol .caret] ∧
      bracket.kind = .symbol .lpar ∧
      (grammar n).type?.result (.ofTokens td (us ++ (ws ++ ts))) =
        (.ok (some (.block (.block (.named t) none []) none [])),
          ⟨bracket :: (after ++ ts), some ⟨.malformedBlockType, bracket.pos⟩, td, false⟩)) := by
  -- all parsers that go deep enough read the same
  have hsame : (grammar n).type?.result (.ofTokens td (us ++ (ws ++ ts))) =
      (Parse.type? (grammar (n + depth + 1))).result (.ofTokens td (us ++ (ws ++ ts))) :=
    ((grammar_reads n (n + depth + 2) n (by omega) (Nat.le_refl n)).type? _ hend hn).1
  have hread : ∀ r, (blockType (grammar (n + depth + 1)) (.named t)).result (.ofTokens td (ws ++ ts)) = r →
      (Parse.type? (grammar (n + depth + 1))).result (.ofTokens td (us ++ (ws ++ ts))) =
        (r.1.map some, r.2) := by
    rintro r rfl
    obtain ⟨front, back, rfl, ho⟩ := hws.opens
    have hopens := opensBlockType_append ho td (back ++ ts)
    obtain ⟨bracket, caret, rfl, hb, -⟩ := ho
    simp only [List.cons_append, List.nil_append] at hopens ⊢
    rw [result_type?_base hbase (by simp [hb]), result_bind_ok hopens, if_pos rfl, result_bind]
    split <;> next hr => rw [hr]; rfl
  refine ⟨fun hcarets hl => ?_, fun hl => ?_⟩
  · have hP : ReadsParams (grammar (n + depth + 1)) td (SpellsList (SpellsType td carets depth)) :=
      readsParams_grammar (readsType_grammar hcarets depth (by omega))
    rw [hsame, hread _ (result_blockType hP hname hws hl (.named t) ts)]
    rfl
  · obtain ⟨front, bracket, after, hus, hfront, hb, hresult⟩ :=
      result_blockType_malformed hws hl (grammar (n + depth + 1)) (.named t) td ts
    refine ⟨front, bracket, after, hus, hfront, hb, ?_⟩
    rw [hsame, hread _ hresult]
    rfl

/-- The tokens of `int (^(^(^f)(int))(BOOL))(id);` are those of three blocks inside each other; the parser
comes as far as the third bracket. -/
theorem nested_block_types_at_three :
    let symbol (s : Symbol) (column : Nat) : Token := ⟨.symbol s, s.text, ⟨1, column⟩⟩
    let base : Token := ⟨.keyword .intType, "int", ⟨1, 1⟩⟩
    let name : Token := ⟨.ident, "f", ⟨1, 11⟩⟩
    let first : Token := ⟨.keyword .intType, "int", ⟨1, 14⟩⟩
    let second : Token := ⟨.keyword .boolType, "BOOL", ⟨1, 20⟩⟩
    let third : Token := ⟨.keyword .idType, "id", ⟨1, 27⟩⟩
    let before := [symbol .lpar 5, symbol .caret 6, symbol .lpar 7, symbol .caret 8]
    let after := [symbol .caret 10, name, symbol .rpar 12, symbol .lpar 13, first, symbol .rpar 17, symbol .rpar 18,
      symbol .lpar 19, second, symbol .rpar 24, symbol .rpar 25, symbol .lpar 26, third, symbol .rpar 29]
    let tail := [symbol .semi 30, Token.eof ⟨1, 31⟩]
    let tokens := base :: (before ++ symbol .lpar 9 :: (after ++ tail))
    Carets (SpellsList (SpellsType [] 2 0)) (some name) (before ++ symbol .lpar 9 :: after)
      [[.named third], [.named second], [.named first]] ∧
    (grammar tokens.length).type?.result (.ofTokens [] tokens) =
      (.ok (some (.block (.block (.named base) none []) none [])),
        ⟨symbol .lpar 9 :: (after ++ tail), some ⟨.malformedBlockType, ⟨1, 9⟩⟩, [], false⟩) := by
  intro symbol base name first second third before after tail tokens
  have closes : ∀ {close bracket param last : Token}, close.kind = .symbol .rpar → bracket.kind = .symbol .lpar →
      param.kind.opensType = true → last.kind = .symbol .rpar →
      Closes (SpellsList (SpellsType [] 2 0)) [close, bracket, param, last] [.named param] := by
    intro close bracket param last hc hb hp hl
    refine ⟨close, bracket, [param], last, rfl, hc, hb, .inr ⟨[param], [], _, [], rfl, rfl, ?_, .nil⟩, hl⟩
    exact ⟨param, ⟨.inl hp, .inl rfl⟩, rfl⟩
  have opens : ∀ column column', Opens [symbol .lpar column, symbol .caret column'] :=
    fun _ _ => ⟨_, _, rfl, rfl, rfl⟩
  have hws : Carets (SpellsList (SpellsType [] 2 0)) (some name) (before ++ symbol .lpar 9 :: after)
      [[.named third], [.named second], [.named first]] :=
    .around (opens 5 6) (.around (opens 7 8) (.one (opens 9 10) (closes rfl rfl rfl rfl)) (closes rfl rfl rfl rfl))
      (closes rfl rfl rfl rfl)
  have hbase : SpellsBase [] [base] base := ⟨.inl rfl, .inl rfl⟩
  have hend : Ended ([base] ++ (before ++ symbol .lpar 9 :: after ++ tail)) := by
    repeat refine .more (by decide) ?_
    exact .last rfl
  obtain ⟨front, bracket, rest, hfront, hkinds, -, hresult⟩ :=
    (nested_block_types hbase (by simp [name]) hws hend (n := tokens.length) (by simp [tokens])).2 (Nat.le_refl 3)
  have hlen : before.length = front.length := by
    have := congrArg List.length hkinds
    simpa [before] using this.symm
  obtain ⟨rfl, hrest⟩ := List.append_inj hfront hlen
  obtain ⟨rfl, rfl⟩ := List.cons.inj hrest
  refine ⟨hws, ?_⟩
  have htokens : tokens = [base] ++ (before ++ symbol .lpar 9 :: after ++ tail) := by simp [tokens]
  rw [htokens] at hresult ⊢
  exact hresult

end ObjScript
