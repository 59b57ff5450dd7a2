import ObjScript.Proofs.Eval.Execution
import ObjScript.Proofs.Parser.Source
import ObjScript.Proofs.Syntax.Depths

/-!
# Programs that need no analysis of scopes

A reference with a known depth is read from one frame outward and written to that very frame.  Without
depths a name is looked for from the current frame outward.  The two ways agree on programs without classes
in which no name is declared in two scopes, no variable is mentioned in its own initial value, and no branch
or loop runs a loop with a declaration at its start (`ShadowFree`): both runs print and read the same and
end with the same failure (`depths_immaterial`).
-/

namespace ObjScript

/-- The statement is a loop that starts with a declaration. -/
def Stmt.declaresAtStart : Stmt → Bool
  | .count (some init) _ _ _ => init.isDeclaration
  | _ => false

/-- The statements that a branch or a loop runs. -/
def Stmt.branches : Stmt → List Stmt
  | .branch _ yes no => yes :: no.toList
  | .loop _ body => [body]
  | .count _ _ _ body => [body]
  | _ => []

/-- No name of the program hides another one. -/
structure ShadowFree (stmts : List Stmt) : Prop where
  noClasses : ∀ n ∈ Stmt.nodesList stmts, n.isClass = false
  /-- A name is declared in one scope at most, that of the program being the first. -/
  declaredOnce : (Stmt.declaredList stmts :: Stmt.scopesList stmts).Pairwise List.Disjoint
  initial : ∀ d, .stmt (.var d) ∈ Stmt.nodesList stmts → ¬ Mentioned d.nodes d.name.text
  /-- A loop that starts with a declaration stands in a list of statements. -/
  starts : ∀ t, .stmt t ∈ Stmt.nodesList stmts → ∀ body ∈ t.branches, body.declaresAtStart = false

/-- There are no depths before a program. -/
private theorem Store.withDepths_initial (g : Option Nat → Option Nat) :
    Store.initial.withDepths g = Store.initial := by
  simp [Store.withDepths, Store.initial, globalFunctions, Frame.withDepths, Class.withDepths, Bindings.mapAll,
    Value.withDepths, Method.withDepths]

section Declared

variable {nodes : List Node}

/-- What a branch or a loop runs declares nothing, if none of the loops in it starts with a declaration. -/
private theorem Stmt.declared_eq_nil (t : Stmt) (ht : t.nodes ⊆ nodes) (hparsed : ∀ n ∈ nodes, n.AsParsed)
    (hclass : ∀ n ∈ nodes, n.isClass = false)
    (hstarts : ∀ t, .stmt t ∈ nodes → ∀ body ∈ t.branches, body.declaresAtStart = false)
    (hd : t.isDeclaration = false) (hs : t.declaresAtStart = false) : t.declared = [] := by
  have hmem : .stmt t ∈ nodes := ht (by rw [Stmt.nodes.eq_def]; exact List.mem_cons_self)
  have hbelow := List.cons_subset.1 (by rw [Stmt.nodes.eq_def] at ht; exact ht) |>.2
  have hnode := hparsed _ hmem
  have hbodies := hstarts _ hmem
  match t with
  | .branch condition yes no =>
    obtain ⟨hbelow, hno⟩ := List.append_subset.1 hbelow
    have hyes := (List.append_subset.1 hbelow).2
    have hy := yes.declared_eq_nil hyes hparsed hclass hstarts hnode.1 (hbodies yes List.mem_cons_self)
    match no with
    | none => exact congrArg (· ++ []) hy
    | some t =>
      have hn := t.declared_eq_nil hno hparsed hclass hstarts (hnode.2 t rfl)
        (hbodies t (List.mem_cons_of_mem _ (List.mem_singleton_self t)))
      exact congrArg₂ (· ++ ·) hy hn
  | .loop condition body =>
    have hbody := (List.append_subset.1 hbelow).2
    exact body.declared_eq_nil hbody hparsed hclass hstarts hnode (hbodies body (List.mem_singleton_self body))
  | .count init condition step body =>
    have hbody := (List.append_subset.1 hbelow).2
    have hb := body.declared_eq_nil hbody hparsed hclass hstarts hnode.2 (hbodies body (List.mem_singleton_self body))
    -- The start of the loop is an expression, since it is no declaration.
    have hi : Stmt.declaredOption init = [] := by
      cases init with
      | none => rfl
      | some start =>
        rcases hnode.1 start rfl with hdecl | ⟨e, rfl⟩
        · exact absurd (hdecl.symm.trans hs) nofun
        · rfl
    exact congrArg₂ (· ++ ·) hi hb
  | .classDef _ _ _ _ => exact absurd (hclass _ hmem) nofun
  | .var _ | .function _ => exact absurd hd nofun
  | .block _ | .result _ | .expr _ | .print _ | .classImpl _ _ | .typeDef _ _ => rfl

end Declared

section ShadowFree

variable {stmts : List Stmt}

/-- The nodes of a program without hidden names are simple. -/
private theorem ShadowFree.simple (h : ShadowFree stmts) (hparsed : ∀ n ∈ Stmt.nodesList stmts, n.AsParsed) :
    ∀ n ∈ Stmt.nodesList stmts, n.Simple := by
  intro n hn
  have hbelow := Stmt.hereditary_nodesList stmts n hn
  have hempty : ∀ {t body : Stmt}, n = .stmt t → body ∈ t.branches → body.nodes ⊆ t.nodes →
      body.isDeclaration = false → body.declared = [] := by
    intro t body ht hmem hsub hd
    subst ht
    exact body.declared_eq_nil (List.Subset.trans hsub hbelow) hparsed h.noClasses h.starts hd
      (h.starts t hn body hmem)
  have hnode := hparsed n hn
  obtain e | t := n
  · trivial
  cases t with
  | branch condition yes no =>
    refine ⟨hempty rfl List.mem_cons_self ?_ hnode.1, ?_⟩
    · rw [Stmt.nodes]
      exact List.Subset.trans (List.Subset.trans (List.subset_append_right _ _) (List.subset_append_left _ _))
        (List.subset_cons_self _ _)
    · cases no with
      | none => rfl
      | some t =>
        refine hempty rfl (List.mem_cons_of_mem _ (List.mem_singleton_self t)) ?_ (hnode.2 t rfl)
        rw [Stmt.nodes]
        exact List.Subset.trans (List.subset_append_right _ _) (List.subset_cons_self _ _)
  | loop condition body =>
    refine hempty rfl (List.mem_singleton_self body) ?_ hnode
    rw [Stmt.nodes]
    exact List.Subset.trans (List.subset_append_right _ _) (List.subset_cons_self _ _)
  | count init condition step body =>
    refine hempty rfl (List.mem_singleton_self body) ?_ hnode.2
    rw [Stmt.nodes]
    exact List.Subset.trans (List.subset_append_right _ _) (List.subset_cons_self _ _)
  | var d => exact h.initial d hn
  | classDef | classImpl => exact Bool.noConfusion (h.noClasses _ hn)
  | block | result | expr | function | print | typeDef => trivial

/-- The analysis of a program without hidden names always stands in scopes that share no names. -/
private theorem ShadowFree.apart (h : ShadowFree stmts) :
    ∀ v ∈ Stmt.visitsList stmts Scopes.initial [.program], v.Apart (Stmt.declaredList stmts) := by
  refine Stmt.apart_visitsList stmts Scopes.initial [.program] ⟨?_, h.declaredOnce, fun x hx => hx⟩
  exact .cons (Opener.covers_of_names (List.forall_mem_nil _)) .nil

/-- A run without depths ends like one with them, up to the depths in the store. -/
private theorem ShadowFree.runStatements_false (h : ShadowFree stmts)
    (hparsed : ∀ n ∈ Stmt.nodesList stmts, n.AsParsed)
    (input : List String) (clock : Nat → Float) (threshold : Nat) :
    runStatements (.initial input clock threshold) false stmts =
      ((runStatements (.initial input clock threshold) true stmts).1,
        (runStatements (.initial input clock threshold) true stmts).2.withDepths fun _ => none) := by
  let visits := Stmt.visitsList stmts Scopes.initial [.program]
  have hnodes := Stmt.forall_visitsList stmts Scopes.initial [.program] hparsed
  have hsimple := Stmt.forall_visitsList stmts Scopes.initial [.program] (h.simple hparsed)
  have hinv {π : Plan} := π.inv_initial input clock threshold
  -- The run with depths is followed twice: once as it is, and once against the run without them.
  let kept : Plan := ⟨(· ∈ visits), false, [], hnodes, nofun, nofun⟩
  let forgotten : Plan := ⟨(· ∈ visits), true, Stmt.declaredList stmts, hnodes, fun _ => h.apart, fun _ => hsimple⟩
  obtain ⟨r, τ, hrun, hwith, -⟩ := (hinv (π := kept)).interpret (s := Scopes.initial) rfl nofun fun _ hv => hv
  obtain ⟨r', τ', hrun', hwithout, -⟩ := (hinv (π := forgotten)).interpret (s := Scopes.initial) rfl (fun _ => rfl)
    fun _ hv => hv
  obtain ⟨rfl, rfl⟩ := Prod.mk.inj (hrun.symm.trans hrun')
  have hkept : kept.depth = id := rfl
  have hforgotten : forgotten.depth = fun _ => none := rfl
  rw [hkept, Machine.withDepths_id, Machine.withDepths_id, Stmt.withDepthsList_id] at hwith
  rw [hforgotten, Stmt.forget_valueList stmts Scopes.initial hparsed] at hwithout
  have hstart : (Machine.initial input clock threshold).withDepths (fun _ => none) = .initial input clock threshold :=
    congrArg (fun s => { Machine.initial input clock threshold with store := s }) (Store.withDepths_initial _)
  have hfalse : runStatements (.initial input clock threshold) false stmts = _ := hstart ▸ hwithout
  have htrue : runStatements (.initial input clock threshold) true stmts = _ := hwith
  rw [hfalse, htrue]

end ShadowFree

/-- Where no name hides another one, a program does the same with the depths that the analysis found and with
none: what it prints and writes, what it leaves of its input and how it fails. -/
theorem depths_immaterial {typedefs : Names} {tokens : List Token} {stmts : List Stmt} {c : Cursor}
    (hend : Ended tokens) (hparse : parse typedefs tokens = (.ok stmts, c)) (h : ShadowFree stmts)
    (input : List String) (clock : Nat → Float) (threshold : Nat) :
    let machine := Machine.initial input clock threshold
    let resolved := (runStatements machine true stmts).2
    let unresolved := (runStatements machine false stmts).2
    (runStatements machine false stmts).1 = (runStatements machine true stmts).1 ∧
      Session.outputFrom unresolved.printed 0 = Session.outputFrom resolved.printed 0 ∧
      unresolved.printed = resolved.printed ∧ unresolved.written = resolved.written ∧
      unresolved.input = resolved.input ∧ unresolved.lastFault = resolved.lastFault := by
  intro machine resolved unresolved
  have hparsed := asParsed_parse hend hparse
  have hrun : runStatements machine false stmts = _ := h.runStatements_false hparsed input clock threshold
  have hmachine : unresolved = resolved.withDepths fun _ => none := congrArg Prod.snd hrun
  rw [hmachine, hrun]
  exact ⟨rfl, rfl, rfl, rfl, rfl, rfl⟩

/-- The tokens of `int x; int f(int a) { x = a; } f(YES); print x;`. -/
def setterTokens : List Token :=
  [⟨.keyword .intType, "int", ⟨1, 1⟩⟩, ⟨.ident, "x", ⟨1, 5⟩⟩, ⟨.symbol .semi, ";", ⟨1, 6⟩⟩,
    ⟨.keyword .intType, "int", ⟨2, 1⟩⟩, ⟨.ident, "f", ⟨2, 5⟩⟩, ⟨.symbol .lpar, "(", ⟨2, 6⟩⟩,
    ⟨.keyword .intType, "int", ⟨2, 7⟩⟩, ⟨.ident, "a", ⟨2, 11⟩⟩, ⟨.symbol .rpar, ")", ⟨2, 12⟩⟩,
    ⟨.symbol .lbrace, "\x7b", ⟨2, 14⟩⟩, ⟨.ident, "x", ⟨2, 16⟩⟩, ⟨.symbol .assign, "=", ⟨2, 18⟩⟩,
    ⟨.ident, "a", ⟨2, 20⟩⟩, ⟨.symbol .semi, ";", ⟨2, 21⟩⟩, ⟨.symbol .rbrace, "\x7d", ⟨2, 23⟩⟩,
    ⟨.ident, "f", ⟨3, 1⟩⟩, ⟨.symbol .lpar, "(", ⟨3, 2⟩⟩, ⟨.keyword .yes, "YES", ⟨3, 3⟩⟩,
    ⟨.symbol .rpar, ")", ⟨3, 6⟩⟩, ⟨.symbol .semi, ";", ⟨3, 7⟩⟩, ⟨.keyword .printWord, "print", ⟨4, 1⟩⟩,
    ⟨.ident, "x", ⟨4, 7⟩⟩, ⟨.symbol .semi, ";", ⟨4, 8⟩⟩, .eof ⟨4, 9⟩]

/-- The statements of the same program. -/
def setterProgram : List Stmt :=
  [.var ⟨.named ⟨.keyword .intType, "int", ⟨1, 1⟩⟩, ⟨"x", ⟨1, 5⟩⟩, none⟩,
    .function ⟨⟨"f", ⟨2, 5⟩⟩, [⟨.named ⟨.keyword .intType, "int", ⟨2, 7⟩⟩, ⟨"a", ⟨2, 11⟩⟩⟩],
      [.expr (.assign ⟨⟨"x", ⟨2, 16⟩⟩, none⟩ .set ⟨2, 18⟩ (.variable ⟨⟨"a", ⟨2, 20⟩⟩, none⟩))], false⟩,
    .expr (.call (.variable ⟨⟨"f", ⟨3, 1⟩⟩, none⟩) [.literal (.bool true)]),
    .print (.variable ⟨⟨"x", ⟨4, 7⟩⟩, none⟩)]

set_option maxRecDepth 800 in
private theorem parse_setterTokens : ∃ c, parse [] setterTokens = (.ok setterProgram, c) :=
  ⟨_, rfl⟩

private theorem shadowFree_setterProgram : ShadowFree setterProgram := by
  refine ⟨?_, ?_, ?_, ?_⟩
  · simp [setterProgram, Stmt.nodesList, Stmt.nodes, VarDecl.nodes, FunctionDecl.nodes, Expr.nodes, Expr.nodesOption,
      Expr.nodesList, Node.isClass]
  · simp [setterProgram, Stmt.declaredList, Stmt.declared, Stmt.scopesList, Stmt.scopes, FunctionDecl.scopes,
      Expr.scopes, Expr.scopesList, Expr.scopesOption, paramNames, List.Disjoint]
  · simp [setterProgram, Stmt.nodesList, Stmt.nodes, VarDecl.nodes, FunctionDecl.nodes, Expr.nodes, Expr.nodesOption,
      Expr.nodesList, Mentioned]
  · simp [setterProgram, Stmt.nodesList, Stmt.nodes, VarDecl.nodes, FunctionDecl.nodes, Expr.nodes, Expr.nodesOption,
      Expr.nodesList, Stmt.branches]

/-- The function of this program sets the variable of the program, with depths and without them. -/
theorem depths_immaterial_at_setter :
    Ended setterTokens ∧ (∃ c, parse [] setterTokens = (.ok setterProgram, c)) ∧ ShadowFree setterProgram ∧
      (runStatements (.initial [] (fun _ => 0) 0) true setterProgram).2.printed = "YES\n" ∧
      (runStatements (.initial [] (fun _ => 0) 0) false setterProgram).2.printed =
        (runStatements (.initial [] (fun _ => 0) 0) true setterProgram).2.printed := by
  obtain ⟨c, hparse⟩ := parse_setterTokens
  have hend : Ended setterTokens := by
    unfold setterTokens
    repeat' first | exact .last rfl | refine .more (by decide) ?_
  have h := depths_immaterial hend hparse shadowFree_setterProgram [] (fun _ => 0) 0
  exact ⟨hend, ⟨c, hparse⟩, shadowFree_setterProgram, by decide +kernel, h.2.2.1⟩

end ObjScript
