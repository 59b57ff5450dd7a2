import ObjScript.Proofs.Parser.Names
import ObjScript.Proofs.Syntax.Depths

/-!
# What is declared before a node

A site is a node of a tree with the scopes around it, and with the names that are declared in each of them before
the node in the order of the text (`Stmt.sites`).  The analysis follows this order: when it comes to a node, its
stack holds these names (`Matches`), and the names that it knows of a class in the scope of an implementation.  So
at each site of the tree that the analysis leaves the references were found in these scopes (`Stmt.allSited`).  The
places of a tree are those of its sites (`Stmt.places_eq`).
-/

namespace ObjScript

/-- A scope around a node: the class whose implementation it is, if it is one, and the names that are declared in
it before the node. -/
structure Scope where
  owner : Option String
  names : Names

/-- A node with the scopes around it, from the innermost outward. -/
structure Site where
  node : Node
  scopes : List Scope

/-- The scopes that are open around a node. -/
def surroundings (σ : List Scope) : Surroundings :=
  σ.map (·.owner)

/-- The innermost scope declares more names. -/
def declareIn (names : List String) : List Scope → List Scope
  | [] => []
  | scope :: outer => ⟨scope.owner, scope.names.addAll names⟩ :: outer

/-- The scope of a body with its parameters. -/
def Scope.ofParams (params : List Param) : Scope :=
  ⟨none, Names.addAll [] (paramNames params)⟩

mutual

/-- An expression and all nodes below it. -/
def Expr.sites (e : Expr) (σ : List Scope) : List Site :=
  ⟨.expr e, σ⟩ :: match e with
    | .literal _ | .variable _ | .selfRef _ | .superRef _ => []
    | .grouping inner => inner.sites σ
    | .unary _ _ operand => operand.sites σ
    | .binary left _ _ right => left.sites σ ++ right.sites σ
    | .logical left _ right => left.sites σ ++ right.sites σ
    | .ternary condition yes no => condition.sites σ ++ (yes.sites σ ++ no.sites σ)
    | .assign _ _ _ value => value.sites σ
    | .array items => Expr.sitesList items σ
    | .index object place => object.sites σ ++ place.sites σ
    | .setIndex object place _ _ value => value.sites σ ++ (object.sites σ ++ place.sites σ)
    | .get object _ => object.sites σ
    | .set object _ _ _ value => value.sites σ ++ object.sites σ
    | .call callee args => callee.sites σ ++ Expr.sitesList args σ
    | .block _ params body => Stmt.sitesList body (.ofParams params :: σ)

/-- The nodes of each expression of a list. -/
def Expr.sitesList : List Expr → List Scope → List Site
  | [], _ => []
  | e :: rest, σ => e.sites σ ++ Expr.sitesList rest σ

/-- The nodes of an expression that may be absent. -/
def Expr.sitesOption : Option Expr → List Scope → List Site
  | none, _ => []
  | some e, σ => e.sites σ

/-- The nodes of the initial values. -/
def VarDecl.sitesList : List VarDecl → List Scope → List Site
  | [], _ => []
  | ⟨_, _, init⟩ :: rest, σ => Expr.sitesOption init σ ++ VarDecl.sitesList rest σ

/-- The nodes of the bodies. -/
def FunctionDecl.sitesList : List FunctionDecl → List Scope → List Site
  | [], _ => []
  | ⟨_, params, body, _⟩ :: rest, σ =>
    Stmt.sitesList body (.ofParams params :: σ) ++ FunctionDecl.sitesList rest σ

/-- A statement and all nodes below it.  A declaration counts in its own initial value and body. -/
def Stmt.sites (t : Stmt) (σ : List Scope) : List Site :=
  ⟨.stmt t, σ⟩ :: match t with
    | .block body => Stmt.sitesList body (⟨none, []⟩ :: σ)
    | .branch condition yes no =>
      condition.sites σ ++ (yes.sites σ ++ Stmt.sitesOption no (declareIn yes.declared σ))
    | .loop condition body => condition.sites σ ++ body.sites σ
    | .count init condition step body =>
      Stmt.sitesOption init σ ++ (Expr.sitesOption condition (declareIn (Stmt.declaredOption init) σ) ++
        (Expr.sitesOption step (declareIn (Stmt.declaredOption init) σ) ++
          body.sites (declareIn (Stmt.declaredOption init) σ)))
    | .result value => Expr.sitesOption value σ
    | .expr e => e.sites σ
    | .var ⟨_, name, init⟩ => Expr.sitesOption init (declareIn [name.text] σ)
    | .function ⟨name, params, body, _⟩ => Stmt.sitesList body (.ofParams params :: declareIn [name.text] σ)
    | .print value => value.sites σ
    | .classDef name superclass _ properties =>
      superclass.toList.map (fun ref => ⟨.expr (.variable ref), declareIn [name.text] σ⟩) ++
        VarDecl.sitesList properties (declareIn [name.text] σ)
    | .classImpl name methods => FunctionDecl.sitesList methods (⟨some name.text, []⟩ :: σ)
    | .typeDef _ _ => []

/-- The nodes of each statement of a list. -/
def Stmt.sitesList : List Stmt → List Scope → List Site
  | [], _ => []
  | t :: rest, σ => t.sites σ ++ Stmt.sitesList rest (declareIn t.declared σ)

/-- The nodes of a statement that may be absent. -/
def Stmt.sitesOption : Option Stmt → List Scope → List Site
  | none, _ => []
  | some t, σ => t.sites σ

end

/-! ### The places of a tree are those of its sites -/

/-- The place of a site. -/
def Site.place (site : Site) : Place :=
  ⟨site.node, surroundings site.scopes⟩

theorem surroundings_declareIn (names : List String) (σ : List Scope) :
    surroundings (declareIn names σ) = surroundings σ := by
  cases σ <;> rfl

mutual

theorem Expr.places_eq (e : Expr) (σ : List Scope) : e.places (surroundings σ) = (e.sites σ).map Site.place := by
  rw [Expr.places.eq_def, Expr.sites.eq_def]
  refine congrArg (List.cons _) ?_
  match e with
  | .literal _ | .variable _ | .selfRef _ | .superRef _ => rfl
  | .grouping inner => exact inner.places_eq σ
  | .unary _ _ operand => exact operand.places_eq σ
  | .binary left _ _ right | .logical left _ right => simp [left.places_eq σ, right.places_eq σ]
  | .ternary condition yes no => simp [condition.places_eq σ, yes.places_eq σ, no.places_eq σ]
  | .assign _ _ _ value => exact value.places_eq σ
  | .array items => exact Expr.placesList_eq items σ
  | .index object place => simp [object.places_eq σ, place.places_eq σ]
  | .setIndex object place _ _ value => simp [object.places_eq σ, place.places_eq σ, value.places_eq σ]
  | .get object _ => exact object.places_eq σ
  | .set object _ _ _ value => simp [object.places_eq σ, value.places_eq σ]
  | .call callee args => simp [callee.places_eq σ, Expr.placesList_eq args σ]
  | .block _ params body => exact Stmt.placesList_eq body (.ofParams params :: σ)

theorem Expr.placesList_eq (l : List Expr) (σ : List Scope) :
    Expr.placesList l (surroundings σ) = (Expr.sitesList l σ).map Site.place := by
  match l with
  | [] => rfl
  | e :: rest => simp [Expr.placesList, Expr.sitesList, e.places_eq σ, Expr.placesList_eq rest σ]

theorem Expr.placesOption_eq (o : Option Expr) (σ : List Scope) :
    Expr.placesOption o (surroundings σ) = (Expr.sitesOption o σ).map Site.place := by
  match o with
  | none => rfl
  | some e => exact e.places_eq σ

theorem VarDecl.placesList_eq (l : List VarDecl) (σ : List Scope) :
    VarDecl.placesList l (surroundings σ) = (VarDecl.sitesList l σ).map Site.place := by
  match l with
  | [] => rfl
  | ⟨_, _, init⟩ :: rest =>
    simp [VarDecl.placesList, VarDecl.sitesList, Expr.placesOption_eq init σ, VarDecl.placesList_eq rest σ]

theorem FunctionDecl.placesList_eq (l : List FunctionDecl) (σ : List Scope) :
    FunctionDecl.placesList l (surroundings σ) = (FunctionDecl.sitesList l σ).map Site.place := by
  match l with
  | [] => rfl
  | ⟨_, params, body, _⟩ :: rest =>
    have hbody : Stmt.placesList body (none :: surroundings σ) = _ := Stmt.placesList_eq body (.ofParams params :: σ)
    simp [FunctionDecl.placesList, FunctionDecl.sitesList, hbody, FunctionDecl.placesList_eq rest σ]

theorem Stmt.places_eq (t : Stmt) (σ : List Scope) : t.places (surroundings σ) = (t.sites σ).map Site.place := by
  rw [Stmt.places.eq_def, Stmt.sites.eq_def]
  refine congrArg (List.cons _) ?_
  match t with
  | .block body => exact Stmt.placesList_eq body (⟨none, []⟩ :: σ)
  | .branch condition yes no =>
    have hno := Stmt.placesOption_eq no (declareIn yes.declared σ)
    rw [surroundings_declareIn] at hno
    simp [condition.places_eq σ, yes.places_eq σ, hno]
  | .loop condition body => simp [condition.places_eq σ, body.places_eq σ]
  | .count init condition step body =>
    have hcondition := Expr.placesOption_eq condition (declareIn (Stmt.declaredOption init) σ)
    have hstep := Expr.placesOption_eq step (declareIn (Stmt.declaredOption init) σ)
    have hbody := body.places_eq (declareIn (Stmt.declaredOption init) σ)
    rw [surroundings_declareIn] at hcondition hstep hbody
    simp [Stmt.placesOption_eq init σ, hcondition, hstep, hbody]
  | .result value => exact Expr.placesOption_eq value σ
  | .expr e => exact e.places_eq σ
  | .var ⟨_, name, init⟩ =>
    have hinit := Expr.placesOption_eq init (declareIn [name.text] σ)
    rw [surroundings_declareIn] at hinit
    exact hinit
  | .function ⟨name, params, body, _⟩ =>
    have hbody := Stmt.placesList_eq body (.ofParams params :: declareIn [name.text] σ)
    rw [surroundings, List.map_cons, ← surroundings, surroundings_declareIn] at hbody
    exact hbody
  | .print value => exact value.places_eq σ
  | .classDef name superclass _ properties =>
    have hproperties := VarDecl.placesList_eq properties (declareIn [name.text] σ)
    rw [surroundings_declareIn] at hproperties
    simp [hproperties, Site.place, surroundings_declareIn]
  | .classImpl name methods => exact FunctionDecl.placesList_eq methods (⟨some name.text, []⟩ :: σ)
  | .typeDef _ _ => rfl

theorem Stmt.placesList_eq (l : List Stmt) (σ : List Scope) :
    Stmt.placesList l (surroundings σ) = (Stmt.sitesList l σ).map Site.place := by
  match l with
  | [] => rfl
  | t :: rest =>
    have hrest := Stmt.placesList_eq rest (declareIn t.declared σ)
    rw [surroundings_declareIn] at hrest
    simp [Stmt.placesList, Stmt.sitesList, t.places_eq σ, hrest]

theorem Stmt.placesOption_eq (o : Option Stmt) (σ : List Scope) :
    Stmt.placesOption o (surroundings σ) = (Stmt.sitesOption o σ).map Site.place := by
  match o with
  | none => rfl
  | some t => exact t.places_eq σ

end

/-! ### The stack of the analysis -/

/-- The names that the analysis knows in a scope.  Of an implementation it knows `self`, `super` and at least the
members in `T`. -/
def Scope.Matches (T : String → String → Prop) (names : Names) (scope : Scope) : Prop :=
  match scope.owner with
  | none => names = scope.names ∧ ∀ x ∈ names, IsName x
  | some cls => ∀ x, x = "self" ∨ x = "super" ∨ T cls x → x ∈ names

/-- The stack has the names of each of the scopes. -/
def Matches (T : String → String → Prop) : List Names → List Scope → Prop :=
  List.Forall₂ (Scope.Matches T)

section Stack

variable {T : String → String → Prop} {s : Scopes} {stack : List Names} {σ : List Scope}

theorem Matches.declareTop (h : Matches T stack σ) {names : List String} (hnames : ∀ x ∈ names, IsName x) :
    Matches T (declareTop names stack) (declareIn names σ) := by
  cases h with
  | nil => exact .nil
  | @cons known scope _ _ hhead htail =>
    obtain ⟨owner, own⟩ := scope
    refine .cons ?_ htail
    cases owner with
    | none =>
      obtain ⟨rfl, hnamed⟩ := hhead
      refine ⟨rfl, fun x hx => ?_⟩
      exact (Names.mem_addAll.1 hx).elim (hnamed x) (hnames x)
    | some cls => exact fun x hx => Names.mem_addAll.2 (.inl (hhead x hx))

private theorem Matches.enter (h : Matches T s.stack σ) {params : List Param}
    (hparams : ∀ x ∈ paramNames params, IsName x) :
    Matches T (s.enter params).stack (.ofParams params :: σ) := by
  rw [stack_enter]
  refine .cons ⟨rfl, fun x hx => ?_⟩ h
  exact hparams x ((Names.mem_addAll.1 hx).resolve_left List.not_mem_nil)

/-- In the scope of an implementation the analysis knows the members of the class. -/
theorem Matches.enterMembers (h : Matches T s.stack σ) {name : Name} {methods : List FunctionDecl}
    (hT : ∀ x, T name.text x → x ∈ (s.implemented name methods).classes.members name.text) :
    Matches T (s.enterMembers name methods).stack (⟨some name.text, []⟩ :: σ) := by
  unfold Scopes.enterMembers
  rw [stack_declareAll]
  refine .cons (fun x hx => Names.mem_addAll.2 (.inr ?_)) h
  rcases hx with rfl | rfl | hx
  · exact List.mem_cons_self
  · exact List.mem_cons_of_mem _ List.mem_cons_self
  · exact List.mem_cons_of_mem _ (List.mem_cons_of_mem _ (hT x hx))

/-- The words `self` and `super` are found in the scope of the nearest implementation, and nowhere else. -/
theorem Matches.depth?_reserved (h : Matches T stack σ) {x : String} (hx : x = "self" ∨ x = "super") :
    Resolve.depth? stack x = (surroundings σ).home? := by
  have hname : ¬ IsName x := fun h => h.not_reserved hx
  induction h with
  | nil => rfl
  | @cons names scope stack σ hhead _ ih =>
    obtain ⟨owner, own⟩ := scope
    unfold Resolve.depth? Surroundings.home? surroundings at ih ⊢
    rw [List.map_cons, List.findIdx?_cons, List.findIdx?_cons, ih]
    cases owner with
    | some cls =>
      have hmem : x ∈ names := hhead x (hx.imp_right .inl)
      rw [if_pos (List.contains_iff_mem.2 hmem)]
      rfl
    | none =>
      have hnot : ¬ (names.contains x = true) := fun hmem => hname (hhead.2 x (List.contains_iff_mem.1 hmem))
      rw [if_neg hnot]
      rfl

/-- A member of the class is found in the scope of the nearest implementation, unless a nearer scope declares its
name. -/
theorem Matches.depth? (h : Matches T stack σ) {k : Nat} (hk : (surroundings σ).home? = some k) {x : String}
    (hx : ∀ cls, (surroundings σ)[k]? = some (some cls) → T cls x) (hinner : ∀ scope ∈ σ.take k, x ∉ scope.names) :
    Resolve.depth? stack x = some k := by
  induction h generalizing k with
  | nil => cases hk
  | @cons names scope stack σ hhead _ ih =>
    obtain ⟨owner, own⟩ := scope
    unfold Resolve.depth? at ih ⊢
    unfold Surroundings.home? surroundings at hk
    rw [List.map_cons, List.findIdx?_cons] at hk
    rw [List.findIdx?_cons]
    cases owner with
    | some cls =>
      obtain rfl : 0 = k := Option.some.inj hk
      have hmem : x ∈ names := hhead x (.inr (.inr (hx cls rfl)))
      rw [if_pos (List.contains_iff_mem.2 hmem)]
    | none =>
      obtain ⟨j, hj, rfl⟩ := Option.map_eq_some_iff.1 hk
      obtain ⟨rfl, -⟩ := hhead
      have hnot : ¬ (names.contains x = true) := fun hmem =>
        hinner ⟨none, names⟩ List.mem_cons_self (List.contains_iff_mem.1 hmem)
      rw [if_neg hnot, ih hj hx fun scope hscope => hinner scope (List.mem_cons_of_mem _ hscope)]
      rfl

end Stack

mutual

/-- No reserved word is declared. -/
theorem Stmt.isName_declared (t : Stmt) (h : ∀ n ∈ t.nodes, n.WellNamed) : ∀ x ∈ t.declared, IsName x := by
  match t, h with
  | .branch condition yes no, h =>
    obtain ⟨-, h⟩ := List.forall_mem_cons.1 h
    obtain ⟨h, hno⟩ := List.forall_mem_append.1 h
    obtain ⟨-, hyes⟩ := List.forall_mem_append.1 h
    exact List.forall_mem_append.2 ⟨yes.isName_declared hyes, Stmt.isName_declaredOption no hno⟩
  | .loop condition body, h =>
    obtain ⟨-, h⟩ := List.forall_mem_cons.1 h
    exact body.isName_declared (List.forall_mem_append.1 h).2
  | .count init condition step body, h =>
    obtain ⟨-, h⟩ := List.forall_mem_cons.1 h
    obtain ⟨h, hbody⟩ := List.forall_mem_append.1 h
    obtain ⟨h, -⟩ := List.forall_mem_append.1 h
    obtain ⟨hinit, -⟩ := List.forall_mem_append.1 h
    exact List.forall_mem_append.2 ⟨Stmt.isName_declaredOption init hinit, body.isName_declared hbody⟩
  | .var decl, h =>
    obtain ⟨⟨hnames, -⟩, -⟩ := List.forall_mem_cons.1 h
    exact List.forall_mem_singleton.2 (hnames _ List.mem_cons_self)
  | .function ⟨name, params, body, isStatic⟩, h =>
    obtain ⟨⟨hnames, -⟩, -⟩ := List.forall_mem_cons.1 h
    exact List.forall_mem_singleton.2 (hnames _ List.mem_cons_self)
  | .classDef name superclass methods properties, h =>
    obtain ⟨⟨hnames, -⟩, -⟩ := List.forall_mem_cons.1 h
    exact List.forall_mem_singleton.2 (hnames _ List.mem_cons_self)
  | .block _, _ | .result _, _ | .expr _, _ | .print _, _ | .classImpl _ _, _ | .typeDef _ _, _ =>
    exact List.forall_mem_nil _

private theorem Stmt.isName_declaredOption (o : Option Stmt) (h : ∀ n ∈ Stmt.nodesOption o, n.WellNamed) :
    ∀ x ∈ Stmt.declaredOption o, IsName x := by
  match o with
  | none => exact List.forall_mem_nil _
  | some t => exact t.isName_declared h

end

/-! ### The sites of a tree that the analysis leaves -/

/-- The node as the analysis leaves it. -/
def Node.resolved (s : Scopes) : Node → Node
  | .expr e => .expr (e.resolve.value s)
  | .stmt t => .stmt (t.resolve.value s)

theorem Node.isClass_resolved (n : Node) (s : Scopes) : (n.resolved s).isClass = n.isClass := by
  match n with
  | .expr _ => rfl
  | .stmt (.classDef _ none _ _) | .stmt (.classDef _ (some _) _ _) | .stmt (.classImpl _ _) => rfl
  | .stmt (.block _) | .stmt (.branch _ _ _) | .stmt (.loop _ _) | .stmt (.count _ _ _ _) | .stmt (.result _)
  | .stmt (.expr _) | .stmt (.var _) | .stmt (.function _) | .stmt (.print _) | .stmt (.typeDef _ _) => rfl

/-- The reference that a node is or writes to. -/
def Node.ref? : Node → Option Ref
  | .expr (.variable ref) | .expr (.selfRef ref) | .expr (.superRef ref) => some ref
  | .expr (.assign target _ _ _) => some target
  | _ => none

private theorem depth_reference (kind : RefKind) {r : Ref} (h : r.depth = none) (s : Scopes) :
    ((Resolve.reference kind r).value s).depth =
      Resolve.depth? s.stack ((Resolve.reference kind r).value s).name.text := by
  rw [value_reference kind r s h]

/-- The depth of a reference is that of its name on the stack. -/
theorem Node.depth_resolved {n : Node} (hn : n.AsParsed) {s : Scopes} {ref : Ref}
    (h : (n.resolved s).ref? = some ref) : ref.depth = Resolve.depth? s.stack ref.name.text := by
  match n, hn, h with
  | .expr (.variable _), hn, h => exact Option.some.inj h ▸ depth_reference .variable hn s
  | .expr (.selfRef _), hn, h => exact Option.some.inj h ▸ depth_reference .selfRef hn s
  | .expr (.superRef _), hn, h => exact Option.some.inj h ▸ depth_reference .superRef hn s
  | .expr (.assign _ _ _ value), hn, h =>
    rw [← value.stack_next s]
    exact Option.some.inj h ▸ depth_reference .assign hn (value.resolve.next s)

/-- The node is well named, and no member is known in `T` of a class that it implements. -/
def Node.Fits (T : String → String → Prop) (n : Node) : Prop :=
  n.WellNamed ∧ ∀ name methods, n = .stmt (.classImpl name methods) → ∀ x, ¬ T name.text x

/-- The analysis came to the node of the site with the names of its scopes. -/
def Sited (T : String → String → Prop) (P : Node → Prop) (site : Site) : Prop :=
  ∃ (n : Node) (s : Scopes), P n ∧ Matches T s.stack site.scopes ∧ site.node = n.resolved s

/-- The analysis came to all the nodes. -/
def AllSited (T : String → String → Prop) (P : Node → Prop) (sites : List Site) : Prop :=
  ∀ site ∈ sites, Sited T P site

section Sites

variable {T : String → String → Prop} {P : Node → Prop}

theorem Sited.imp {Q : Node → Prop} {site : Site} (h : Sited T P site) (hPQ : ∀ n, P n → Q n) : Sited T Q site := by
  obtain ⟨n, s, hP, h⟩ := h
  exact ⟨n, s, hPQ n hP, h⟩

namespace AllSited

variable {sites more : List Site} {s : Scopes} {σ : List Scope}

theorem nil : AllSited T P [] :=
  List.forall_mem_nil _

theorem append (h : AllSited T P sites) (h' : AllSited T P more) : AllSited T P (sites ++ more) :=
  List.forall_mem_append.2 ⟨h, h'⟩

/-- A node with the sites below it. -/
theorem node {n : Node} (hn : P n) (hs : Matches T s.stack σ) (h : AllSited T P sites) :
    AllSited T P (⟨n.resolved s, σ⟩ :: sites) :=
  List.forall_mem_cons.2 ⟨⟨n, s, hn, hs, rfl⟩, h⟩

end AllSited

mutual

theorem Expr.allSited (e : Expr) {s : Scopes} {σ : List Scope} (hs : Matches T s.stack σ)
    (h : ∀ n ∈ e.nodes, n.Fits T ∧ P n) : AllSited T P ((e.resolve.value s).sites σ) := by
  obtain ⟨he, h⟩ := List.forall_mem_cons.1 (by unfold Expr.nodes at h; exact h)
  match e, he, h with
  | .literal _, he, _ | .variable _, he, _ | .selfRef _, he, _ | .superRef _, he, _ => exact .node he.2 hs .nil
  | .grouping inner, he, h => exact .node he.2 hs (inner.allSited hs h)
  | .unary _ _ operand, he, h => exact .node he.2 hs (operand.allSited hs h)
  | .binary left _ _ right, he, h | .logical left _ right, he, h =>
    obtain ⟨hl, hr⟩ := List.forall_mem_append.1 h
    have hs₁ : Matches T (left.resolve.next s).stack σ := (left.stack_next s).symm ▸ hs
    exact .node he.2 hs ((left.allSited hs hl).append (right.allSited hs₁ hr))
  | .ternary condition yes no, he, h =>
    obtain ⟨h, hn⟩ := List.forall_mem_append.1 h
    obtain ⟨hc, hy⟩ := List.forall_mem_append.1 h
    have hs₁ : Matches T (condition.resolve.next s).stack σ := (condition.stack_next s).symm ▸ hs
    have hs₂ : Matches T (yes.resolve.next (condition.resolve.next s)).stack σ := (yes.stack_next _).symm ▸ hs₁
    exact .node he.2 hs ((condition.allSited hs hc).append ((yes.allSited hs₁ hy).append (no.allSited hs₂ hn)))
  | .assign _ _ _ value, he, h => exact .node he.2 hs (value.allSited hs h)
  | .array items, he, h => exact .node he.2 hs (Expr.allSitedList items hs h)
  | .index object place, he, h =>
    obtain ⟨ho, hp⟩ := List.forall_mem_append.1 h
    have hs₁ : Matches T (object.resolve.next s).stack σ := (object.stack_next s).symm ▸ hs
    exact .node he.2 hs ((object.allSited hs ho).append (place.allSited hs₁ hp))
  | .setIndex object place _ _ value, he, h =>
    obtain ⟨h, hv⟩ := List.forall_mem_append.1 h
    obtain ⟨ho, hp⟩ := List.forall_mem_append.1 h
    have hs₁ : Matches T (value.resolve.next s).stack σ := (value.stack_next s).symm ▸ hs
    have hs₂ : Matches T (object.resolve.next (value.resolve.next s)).stack σ := (object.stack_next _).symm ▸ hs₁
    exact .node he.2 hs ((value.allSited hs hv).append ((object.allSited hs₁ ho).append (place.allSited hs₂ hp)))
  | .get object _, he, h => exact .node he.2 hs (object.allSited hs h)
  | .set object _ _ _ value, he, h =>
    obtain ⟨ho, hv⟩ := List.forall_mem_append.1 h
    have hs₁ : Matches T (value.resolve.next s).stack σ := (value.stack_next s).symm ▸ hs
    exact .node he.2 hs ((value.allSited hs hv).append (object.allSited hs₁ ho))
  | .call callee args, he, h =>
    obtain ⟨hc, ha⟩ := List.forall_mem_append.1 h
    have hs₁ : Matches T (callee.resolve.next s).stack σ := (callee.stack_next s).symm ▸ hs
    exact .node he.2 hs ((callee.allSited hs hc).append (Expr.allSitedList args hs₁ ha))
  | .block _ params body, he, h =>
    have hparams : ∀ x ∈ paramNames params, IsName x := fun x hx => he.1.1.1 x (List.mem_append_left _ hx)
    exact .node he.2 hs (Stmt.allSitedList body (hs.enter hparams) h)

theorem Expr.allSitedList (l : List Expr) {s : Scopes} {σ : List Scope} (hs : Matches T s.stack σ)
    (h : ∀ n ∈ Expr.nodesList l, n.Fits T ∧ P n) :
    AllSited T P (Expr.sitesList ((Expr.resolveList l).value s) σ) := by
  match l with
  | [] => exact .nil
  | e :: rest =>
    obtain ⟨he, hr⟩ := List.forall_mem_append.1 h
    have hs₁ : Matches T (e.resolve.next s).stack σ := (e.stack_next s).symm ▸ hs
    exact (e.allSited hs he).append (Expr.allSitedList rest hs₁ hr)

theorem Expr.allSitedOption (o : Option Expr) {s : Scopes} {σ : List Scope} (hs : Matches T s.stack σ)
    (h : ∀ n ∈ Expr.nodesOption o, n.Fits T ∧ P n) :
    AllSited T P (Expr.sitesOption ((Expr.resolveOption o).value s) σ) := by
  match o with
  | none => exact .nil
  | some e => exact e.allSited hs h

theorem VarDecl.allSitedProperties (className : String) (l : List VarDecl) {s : Scopes} {σ : List Scope}
    (hs : Matches T s.stack σ) (h : ∀ n ∈ VarDecl.nodesList l, n.Fits T ∧ P n) :
    AllSited T P (VarDecl.sitesList ((VarDecl.resolveProperties className l).value s) σ) := by
  match l with
  | [] => exact .nil
  | ⟨_, name, init⟩ :: rest =>
    obtain ⟨hi, hr⟩ := List.forall_mem_append.1 h
    let s₁ := (Resolve.updateClass className fun info =>
      { info with properties := info.properties ++ [name.text] }).next s
    have hs₁ : Matches T s₁.stack σ := hs
    have hs₂ : Matches T ((Expr.resolveOption init).next s₁).stack σ := (Expr.stack_nextOption init s₁).symm ▸ hs₁
    exact (Expr.allSitedOption init hs₁ hi).append (VarDecl.allSitedProperties className rest hs₂ hr)

theorem FunctionDecl.allSitedList (l : List FunctionDecl) {s : Scopes} {σ : List Scope}
    (hs : Matches T s.stack σ) (hparams : ∀ d ∈ l, ∀ x ∈ paramNames d.params, IsName x)
    (h : ∀ n ∈ FunctionDecl.nodesList l, n.Fits T ∧ P n) :
    AllSited T P (FunctionDecl.sitesList ((FunctionDecl.resolveList l).value s) σ) := by
  match l with
  | [] => exact .nil
  | ⟨name, params, body, isStatic⟩ :: rest =>
    obtain ⟨hb, hr⟩ := List.forall_mem_append.1 h
    obtain ⟨hp, hrest⟩ := List.forall_mem_cons.1 hparams
    let d : FunctionDecl := ⟨name, params, body, isStatic⟩
    have hs₁ : Matches T (d.resolve.next s).stack σ := (d.stack_next s).symm ▸ hs
    exact (Stmt.allSitedList body (hs.enter hp) hb).append (FunctionDecl.allSitedList rest hs₁ hrest hr)

theorem Stmt.allSited (t : Stmt) {s : Scopes} {σ : List Scope} (hs : Matches T s.stack σ)
    (h : ∀ n ∈ t.nodes, n.Fits T ∧ P n) : AllSited T P ((t.resolve.value s).sites σ) := by
  obtain ⟨ht, h⟩ := List.forall_mem_cons.1 (by unfold Stmt.nodes at h; exact h)
  match t, ht, h with
  | .block body, ht, h =>
    have hs₁ : Matches T s.push.stack (⟨none, []⟩ :: σ) := .cons ⟨rfl, nofun⟩ hs
    exact .node ht.2 hs (Stmt.allSitedList body hs₁ h)
  | .branch condition yes no, ht, h =>
    obtain ⟨h, hno⟩ := List.forall_mem_append.1 h
    obtain ⟨hc, hyes⟩ := List.forall_mem_append.1 h
    have hs₁ : Matches T (condition.resolve.next s).stack σ := (condition.stack_next s).symm ▸ hs
    have hs₂ : Matches T (yes.resolve.next (condition.resolve.next s)).stack (declareIn yes.declared σ) := by
      rw [yes.stack_next]
      exact hs₁.declareTop (yes.isName_declared fun n hn => (hyes n hn).1.1)
    have hrest := Stmt.allSitedOption no hs₂ hno
    rw [← yes.declared_value (condition.resolve.next s)] at hrest
    exact .node ht.2 hs ((condition.allSited hs hc).append ((yes.allSited hs₁ hyes).append hrest))
  | .loop condition body, ht, h =>
    obtain ⟨hc, hb⟩ := List.forall_mem_append.1 h
    have hs₁ : Matches T (condition.resolve.next s).stack σ := (condition.stack_next s).symm ▸ hs
    exact .node ht.2 hs ((condition.allSited hs hc).append (body.allSited hs₁ hb))
  | .count init condition step body, ht, h =>
    obtain ⟨h, hb⟩ := List.forall_mem_append.1 h
    obtain ⟨h, hstep⟩ := List.forall_mem_append.1 h
    obtain ⟨hi, hc⟩ := List.forall_mem_append.1 h
    let s₁ := (Stmt.resolveOption init).next s
    let s₂ := (Expr.resolveOption condition).next s₁
    let s₃ := (Expr.resolveOption step).next s₂
    have hs₁ : Matches T s₁.stack (declareIn (Stmt.declaredOption init) σ) := by
      rw [Stmt.stack_nextOption]
      exact hs.declareTop (Stmt.isName_declaredOption init fun n hn => (hi n hn).1.1)
    have hs₂ : Matches T s₂.stack (declareIn (Stmt.declaredOption init) σ) :=
      (Expr.stack_nextOption condition s₁).symm ▸ hs₁
    have hs₃ : Matches T s₃.stack (declareIn (Stmt.declaredOption init) σ) :=
      (Expr.stack_nextOption step s₂).symm ▸ hs₂
    have hcondition := Expr.allSitedOption condition hs₁ hc
    have hnext := Expr.allSitedOption step hs₂ hstep
    have hbody := body.allSited hs₃ hb
    rw [← Stmt.declared_valueOption init s] at hcondition hnext hbody
    exact .node ht.2 hs ((Stmt.allSitedOption init hs hi).append (hcondition.append (hnext.append hbody)))
  | .result value, ht, h => exact .node ht.2 hs (Expr.allSitedOption value hs h)
  | .expr e, ht, h => exact .node ht.2 hs (e.allSited hs h)
  | .var ⟨_, name, init⟩, ht, h =>
    have hs₁ : Matches T ((Resolve.declare name.text).next s).stack (declareIn [name.text] σ) := by
      rw [stack_declare]
      exact hs.declareTop (List.forall_mem_singleton.2 (ht.1.1.1 _ List.mem_cons_self))
    exact .node ht.2 hs (Expr.allSitedOption init hs₁ h)
  | .function ⟨name, params, body, _⟩, ht, h =>
    obtain ⟨hname, hparams⟩ := List.forall_mem_cons.1 (List.forall_mem_append.1 ht.1.1.1).1
    have hs₁ : Matches T ((Resolve.declare name.text).next s).stack (declareIn [name.text] σ) := by
      rw [stack_declare]
      exact hs.declareTop (List.forall_mem_singleton.2 hname)
    exact .node ht.2 hs (Stmt.allSitedList body (hs₁.enter hparams) h)
  | .print value, ht, h => exact .node ht.2 hs (value.allSited hs h)
  | .classDef name superclass methods properties, ht, h =>
    obtain ⟨hrefs, h⟩ := List.forall_mem_append.1 h
    obtain ⟨-, hp⟩ := List.forall_mem_append.1 h
    let s₁ := (Resolve.declare name.text).next s
    have hs₁ : Matches T s₁.stack (declareIn [name.text] σ) := by
      rw [stack_declare]
      exact hs.declareTop (List.forall_mem_singleton.2 (ht.1.1.1 _ List.mem_cons_self))
    have hs₂ : Matches T ((resolveSuperclass name superclass).next s₁).stack (declareIn [name.text] σ) :=
      (stack_resolveSuperclass name superclass s₁).symm ▸ hs₁
    have hproperties := VarDecl.allSitedProperties name.text properties hs₂ hp
    cases superclass with
    | none => exact .node ht.2 hs hproperties
    | some ref =>
      have href : AllSited T P [⟨.expr ((Expr.variable ref).resolve.value s₁), declareIn [name.text] σ⟩] :=
        .node (hrefs _ List.mem_cons_self).2 hs₁ .nil
      exact .node ht.2 hs (href.append hproperties)
  | .classImpl name methods, ht, h =>
    have hparams : ∀ d ∈ methods, ∀ x ∈ paramNames d.params, IsName x :=
      fun d hd x hx => ht.1.1.1 x (List.mem_append_left _ (List.mem_flatMap.2 ⟨d, hd, hx⟩))
    have hmembers : Matches T (s.enterMembers name methods).stack (⟨some name.text, []⟩ :: σ) :=
      hs.enterMembers fun x hx => absurd hx (ht.1.2 name methods rfl x)
    exact .node ht.2 hs (FunctionDecl.allSitedList methods hmembers hparams h)
  | .typeDef _ _, ht, _ => exact .node ht.2 hs .nil

theorem Stmt.allSitedList (l : List Stmt) {s : Scopes} {σ : List Scope} (hs : Matches T s.stack σ)
    (h : ∀ n ∈ Stmt.nodesList l, n.Fits T ∧ P n) :
    AllSited T P (Stmt.sitesList ((Stmt.resolveList l).value s) σ) := by
  match l with
  | [] => exact .nil
  | t :: rest =>
    obtain ⟨ht, hr⟩ := List.forall_mem_append.1 h
    have hs₁ : Matches T (t.resolve.next s).stack (declareIn t.declared σ) := by
      rw [t.stack_next]
      exact hs.declareTop (t.isName_declared fun n hn => (ht n hn).1.1)
    have hrest := Stmt.allSitedList rest hs₁ hr
    rw [← t.declared_value s] at hrest
    exact (t.allSited hs ht).append hrest

theorem Stmt.allSitedOption (o : Option Stmt) {s : Scopes} {σ : List Scope} (hs : Matches T s.stack σ)
    (h : ∀ n ∈ Stmt.nodesOption o, n.Fits T ∧ P n) :
    AllSited T P (Stmt.sitesOption ((Stmt.resolveOption o).value s) σ) := by
  match o with
  | none => exact .nil
  | some t => exact t.allSited hs h

end

end Sites

/-! ### Forgetting what the analysis has found -/

/-- The node without the depths of its references. -/
def Node.forget : Node → Node
  | .expr e => .expr (e.withDepths fun _ => none)
  | .stmt t => .stmt (t.withDepths fun _ => none)

/-- What the parser built comes back. -/
theorem Node.forget_resolved {n : Node} (h : ∀ k ∈ n.below, k.AsParsed) (s : Scopes) : (n.resolved s).forget = n := by
  cases n with
  | expr e => exact congrArg Node.expr (e.forget_value s h)
  | stmt t => exact congrArg Node.stmt (t.forget_value s h)

private theorem FunctionDecl.params_withDepthsList (g : Option Nat → Option Nat) (l : List FunctionDecl) :
    (FunctionDecl.withDepthsList g l).flatMap (fun d => paramNames d.params) =
      l.flatMap fun d => paramNames d.params := by
  induction l with
  | nil => rfl
  | cons d rest ih => simp [FunctionDecl.withDepthsList, ih]

/-- The depths do not count for what a node binds. -/
theorem Node.binds_forget (n : Node) : n.forget.binds = n.binds := by
  match n with
  | .expr e => cases e <;> rfl
  | .stmt (.function ⟨_, _, _, _⟩) => rfl
  | .stmt (.classImpl _ methods) => exact FunctionDecl.params_withDepthsList _ methods
  | .stmt (.var ⟨_, _, _⟩) | .stmt (.classDef _ _ _ _) => rfl
  | .stmt (.block _) | .stmt (.branch _ _ _) | .stmt (.loop _ _) | .stmt (.count _ _ _ _) | .stmt (.result _)
  | .stmt (.expr _) | .stmt (.print _) | .stmt (.typeDef _ _) => rfl

theorem Node.isClass_forget (n : Node) : n.forget.isClass = n.isClass := by
  match n with
  | .expr _ => rfl
  | .stmt (.var ⟨_, _, _⟩) | .stmt (.function ⟨_, _, _, _⟩) => rfl
  | .stmt (.classDef _ _ _ _) | .stmt (.classImpl _ _) => rfl
  | .stmt (.block _) | .stmt (.branch _ _ _) | .stmt (.loop _ _) | .stmt (.count _ _ _ _) | .stmt (.result _)
  | .stmt (.expr _) | .stmt (.print _) | .stmt (.typeDef _ _) => rfl

end ObjScript
