import Mathlib.Data.List.Basic
import Mathlib.Data.List.Forall2
import ObjScript.Proofs.Scope.Visits

/-!
# Programs in which no name hides another one

`Stmt.scopes` lists the names that are declared in each scope below a statement.  Where no two scopes of a
program share a name, the scopes around each node that the analysis comes to do not share one either, and
the names on the stack are among the ones that its scopes declare (`Stmt.placed_visitsList`).
-/

namespace ObjScript

/-- The names of parameters. -/
def paramNames (params : List Param) : List String :=
  params.map (·.name.text)

mutual

/-- The names that each scope below an expression declares. -/
def Expr.scopes : Expr → List (List String)
  | .literal _ | .variable _ | .selfRef _ | .superRef _ => []
  | .grouping inner => inner.scopes
  | .unary _ _ operand => operand.scopes
  | .binary left _ _ right => left.scopes ++ right.scopes
  | .logical left _ right => left.scopes ++ right.scopes
  | .ternary condition yes no => condition.scopes ++ yes.scopes ++ no.scopes
  | .assign _ _ _ value => value.scopes
  | .array items => Expr.scopesList items
  | .index object place => object.scopes ++ place.scopes
  | .setIndex object place _ _ value => object.scopes ++ place.scopes ++ value.scopes
  | .get object _ => object.scopes
  | .set object _ _ _ value => object.scopes ++ value.scopes
  | .call callee args => callee.scopes ++ Expr.scopesList args
  | .block _ params body => (paramNames params ++ Stmt.declaredList body) :: Stmt.scopesList body

/-- The names that each scope below the expressions of a list declares. -/
def Expr.scopesList : List Expr → List (List String)
  | [] => []
  | e :: rest => e.scopes ++ Expr.scopesList rest

/-- The names that each scope below an expression declares, if there is one. -/
def Expr.scopesOption : Option Expr → List (List String)
  | none => []
  | some e => e.scopes

/-- The names that each scope below the initial values declares. -/
def VarDecl.scopesList : List VarDecl → List (List String)
  | [] => []
  | ⟨_, _, init⟩ :: rest => Expr.scopesOption init ++ VarDecl.scopesList rest

/-- The names that each scope of a function declares. -/
def FunctionDecl.scopes : FunctionDecl → List (List String)
  | ⟨_, params, body, _⟩ => (paramNames params ++ Stmt.declaredList body) :: Stmt.scopesList body

/-- The names that each scope of the functions of a list declares. -/
def FunctionDecl.scopesList : List FunctionDecl → List (List String)
  | [] => []
  | d :: rest => d.scopes ++ FunctionDecl.scopesList rest

/-- The names that each scope below a statement declares. -/
def Stmt.scopes : Stmt → List (List String)
  | .block body => Stmt.declaredList body :: Stmt.scopesList body
  | .branch condition yes no => condition.scopes ++ yes.scopes ++ Stmt.scopesOption no
  | .loop condition body => condition.scopes ++ body.scopes
  | .count init condition step body =>
    Stmt.scopesOption init ++ Expr.scopesOption condition ++ Expr.scopesOption step ++ body.scopes
  | .result value => Expr.scopesOption value
  | .expr e => e.scopes
  | .var ⟨_, _, init⟩ => Expr.scopesOption init
  | .function decl => decl.scopes
  | .print value => value.scopes
  | .classDef _ _ methods properties => FunctionDecl.scopesList methods ++ VarDecl.scopesList properties
  | .classImpl _ methods => FunctionDecl.scopesList methods
  | .typeDef _ _ => []

/-- The names that each scope below the statements of a list declares. -/
def Stmt.scopesList : List Stmt → List (List String)
  | [] => []
  | t :: rest => t.scopes ++ Stmt.scopesList rest

/-- The names that each scope below a statement declares, if there is one. -/
def Stmt.scopesOption : Option Stmt → List (List String)
  | none => []
  | some t => t.scopes

end

mutual

/-- The analysis does not change what a statement declares. -/
theorem Stmt.declared_value (t : Stmt) (s : Scopes) : (t.resolve.value s).declared = t.declared := by
  match t with
  | .branch condition yes no =>
    exact congrArg₂ (· ++ ·) (yes.declared_value _) (Stmt.declared_valueOption no _)
  | .loop _ body => exact body.declared_value _
  | .count init _ _ body => exact congrArg₂ (· ++ ·) (Stmt.declared_valueOption init s) (body.declared_value _)
  | .classDef _ _ _ _ => rw [Stmt.resolve_classDef]; rfl
  | .var ⟨_, _, _⟩ | .function ⟨_, _, _, _⟩ => rfl
  | .block _ | .result _ | .expr _ | .print _ | .classImpl _ _ | .typeDef _ _ => rfl

theorem Stmt.declared_valueOption (o : Option Stmt) (s : Scopes) :
    Stmt.declaredOption ((Stmt.resolveOption o).value s) = Stmt.declaredOption o := by
  match o with
  | none => rfl
  | some t => exact t.declared_value s

end

private theorem Stmt.declared_valueList (l : List Stmt) (s : Scopes) :
    Stmt.declaredList ((Stmt.resolveList l).value s) = Stmt.declaredList l := by
  induction l generalizing s with
  | nil => rfl
  | cons t rest ih => exact congrArg₂ (· ++ ·) (t.declared_value s) (ih (t.resolve.next s))

/-- The names that a scope declares, `top` being those of the program. -/
def Opener.names (top : List String) : Opener → List String
  | .builtins | .members _ => []
  | .program => top
  | .block stmts => Stmt.declaredList stmts
  | .body params stmts => paramNames params ++ Stmt.declaredList stmts

/-- A scope holds no more than the names that it declares; what an implementation holds is left open. -/
def Opener.Covers (top : List String) (names : Names) : Opener → Prop
  | .members _ => True
  | o => ∀ x ∈ names, x ∈ o.names top

theorem Opener.covers_of_names {top : List String} {names : Names} {o : Opener}
    (h : ∀ x ∈ names, x ∈ o.names top) : o.Covers top names := by
  cases o with
  | members _ => trivial
  | _ => exact h

/-- The names that the innermost scope declares. -/
def innermostNames (top : List String) : List Opener → List String
  | [] => []
  | o :: _ => o.names top

/-- The analysis stands in scopes that share no names, neither with each other nor with the scopes to come, and
the names to be declared belong to the innermost one. -/
structure Placed (top : List String) (s : Scopes) (p : List Opener) (inner : List (List String))
    (declared : List String) : Prop where
  stack : List.Forall₂ (fun names o => o.Covers top names) s.stack p
  apart : (p.map (Opener.names top) ++ inner).Pairwise List.Disjoint
  declares : ∀ x ∈ declared, x ∈ innermostNames top p

section Placed

variable {top : List String} {s s' : Scopes} {p : List Opener} {inner inner' : List (List String)}
  {declared declared' added : List String}

/-- A part of a node is met with some of the node's names added to the stack. -/
private theorem Placed.part (h : Placed top s p inner declared) (hs : s'.stack = declareTop added s.stack)
    (ha : added ⊆ declared) (hi : inner'.Sublist inner) (hd : declared' ⊆ declared) :
    Placed top s' p inner' declared' := by
  refine ⟨?_, h.apart.sublist (hi.append_left _), fun x hx => h.declares x (hd hx)⟩
  rw [hs]
  obtain ⟨stack, classes, reports⟩ := s
  obtain ⟨hstack, -, hdecl⟩ := h
  cases hstack with
  | nil => exact .nil
  | @cons names o outer path hn hrest =>
    refine .cons ?_ hrest
    cases o with
    | members _ => trivial
    | _ =>
      intro x hx
      rcases Names.mem_addAll.1 hx with hx | hx
      · exact hn x hx
      · exact hdecl x (ha hx)

/-- A part of a node that is met with the same stack. -/
private theorem Placed.expr (h : Placed top s p inner declared) (hs : s'.stack = s.stack)
    (hi : inner'.Sublist inner) :
    Placed top s' p inner' [] :=
  h.part (hs.trans (declareTop_nil _).symm) (List.nil_subset _) hi (List.nil_subset _)

/-- Another scope is opened with some of its names; the rest is to be declared in it. -/
private theorem Placed.enter {o : Opener} {scope : Names} (h : Placed top s p (o.names top :: inner) declared)
    (hs : s'.stack = scope :: s.stack) (hscope : ∀ x ∈ scope, x ∈ o.names top)
    (hd : ∀ x ∈ declared', x ∈ o.names top) : Placed top s' (o :: p) inner declared' := by
  refine ⟨?_, ?_, hd⟩
  · rw [hs]
    exact .cons (Opener.covers_of_names hscope) h.stack
  · exact (List.perm_middle.pairwise_iff List.disjoint_symm).1 h.apart

/-- The body of a function is entered. -/
private theorem Placed.enterBody {params : List Param} {body body' : List Stmt}
    (h : Placed top s p ((paramNames params ++ Stmt.declaredList body) :: inner) declared)
    (hbody : Stmt.declaredList body' = Stmt.declaredList body) :
    Placed top (s.enter params) (.body params body' :: p) inner (Stmt.declaredList body) := by
  rw [← hbody] at h ⊢
  refine Placed.enter (o := .body params body') h (stack_enter s params) (fun x hx => ?_) (fun x hx => ?_)
  · exact List.mem_append_left _ ((Names.mem_addAll.1 hx).resolve_left List.not_mem_nil)
  · exact List.mem_append_right _ hx

/-- The scope of an implementation is opened around one of its methods. -/
private theorem Placed.enterMembers {d : FunctionDecl} {scope : Names} (h : Placed top s p inner [])
    (hs : s'.stack = scope :: s.stack) : Placed top s' (.members d :: p) inner [] := by
  refine ⟨?_, List.pairwise_cons.2 ⟨fun l _ => List.disjoint_nil_left l, h.apart⟩, List.forall_mem_nil _⟩
  rw [hs]
  exact .cons trivial h.stack

end Placed

/-- The names that a node declares. -/
def Node.declared : Node → List String
  | .expr _ => []
  | .stmt t => t.declared

/-- No variable is mentioned in its own initial value, what a branch or a loop runs declares nothing, and there
are no classes. -/
def Node.Simple : Node → Prop
  | .stmt (.branch _ yes no) => yes.declared = [] ∧ Stmt.declaredOption no = []
  | .stmt (.loop _ body) => body.declared = []
  | .stmt (.count _ _ _ body) => body.declared = []
  | .stmt (.var decl) => ¬ Mentioned decl.nodes decl.name.text
  | .stmt (.classDef _ _ _ _) | .stmt (.classImpl _ _) => False
  | _ => True

/-- The analysis came to the node in scopes that share no names. -/
def Visit.Apart (top : List String) (v : Visit) : Prop :=
  Placed top v.scopes v.path [] v.node.declared

section Visits

variable {top : List String}

open List in
mutual

theorem Expr.apart_visits (e : Expr) (s : Scopes) (p : List Opener) (h : Placed top s p e.scopes []) :
    ∀ v ∈ e.visits s p, v.Apart top := by
  match e, h with
  | .literal _, _ => exact forall_mem_nil _
  | .variable _, h | .selfRef _, h | .superRef _, h => exact forall_mem_singleton.2 h
  | .grouping inner, h => exact inner.apart_visits s p h
  | .unary _ _ operand, h => exact operand.apart_visits s p h
  | .binary left _ _ right, h | .logical left _ right, h =>
    exact forall_mem_append.2 ⟨left.apart_visits s p (h.expr rfl (sublist_append_left _ _)),
      right.apart_visits _ p (h.expr (left.stack_next s) (sublist_append_right _ _))⟩
  | .ternary condition yes no, h =>
    have hs := (yes.stack_next _).trans (condition.stack_next s)
    refine forall_mem_append.2 ⟨forall_mem_append.2 ⟨condition.apart_visits s p (h.expr rfl ?_),
      yes.apart_visits _ p (h.expr (condition.stack_next s) ?_)⟩,
      no.apart_visits _ p (h.expr hs (sublist_append_right _ _))⟩
    · exact (sublist_append_left _ _).trans (sublist_append_left _ _)
    · exact (sublist_append_right _ _).trans (sublist_append_left _ _)
  | .assign _ _ _ value, h =>
    exact forall_mem_append.2 ⟨value.apart_visits s p h,
      forall_mem_singleton.2 (h.expr (value.stack_next s) (nil_sublist _))⟩
  | .array items, h => exact Expr.apart_visitsList items s p h
  | .index object place, h =>
    exact forall_mem_append.2 ⟨object.apart_visits s p (h.expr rfl (sublist_append_left _ _)),
      place.apart_visits _ p (h.expr (object.stack_next s) (sublist_append_right _ _))⟩
  | .setIndex object place _ _ value, h =>
    have hs := (object.stack_next _).trans (value.stack_next s)
    refine forall_mem_append.2 ⟨forall_mem_append.2
      ⟨value.apart_visits s p (h.expr rfl (sublist_append_right _ _)),
      object.apart_visits _ p (h.expr (value.stack_next s) ?_)⟩, place.apart_visits _ p (h.expr hs ?_)⟩
    · exact (sublist_append_left _ _).trans (sublist_append_left _ _)
    · exact (sublist_append_right _ _).trans (sublist_append_left _ _)
  | .get object _, h => exact object.apart_visits s p h
  | .set object _ _ _ value, h =>
    exact forall_mem_append.2 ⟨value.apart_visits s p (h.expr rfl (sublist_append_right _ _)),
      object.apart_visits _ p (h.expr (value.stack_next s) (sublist_append_left _ _))⟩
  | .call callee args, h =>
    exact forall_mem_append.2 ⟨callee.apart_visits s p (h.expr rfl (sublist_append_left _ _)),
      Expr.apart_visitsList args _ p (h.expr (callee.stack_next s) (sublist_append_right _ _))⟩
  | .block _ params body, h =>
    exact Stmt.apart_visitsList body _ _ (h.enterBody (Stmt.declared_valueList body _))

theorem Expr.apart_visitsList (l : List Expr) (s : Scopes) (p : List Opener)
    (h : Placed top s p (Expr.scopesList l) []) : ∀ v ∈ Expr.visitsList l s p, v.Apart top := by
  match l, h with
  | [], _ => exact forall_mem_nil _
  | e :: rest, h =>
    exact forall_mem_append.2 ⟨e.apart_visits s p (h.expr rfl (sublist_append_left _ _)),
      Expr.apart_visitsList rest _ p (h.expr (e.stack_next s) (sublist_append_right _ _))⟩

theorem Expr.apart_visitsOption (o : Option Expr) (s : Scopes) (p : List Opener)
    (h : Placed top s p (Expr.scopesOption o) []) : ∀ v ∈ Expr.visitsOption o s p, v.Apart top := by
  match o, h with
  | none, _ => exact forall_mem_nil _
  | some e, h => exact e.apart_visits s p h

theorem VarDecl.apart_visitsProperties (className : String) (l : List VarDecl) (s : Scopes) (p : List Opener)
    (h : Placed top s p (VarDecl.scopesList l) []) :
    ∀ v ∈ VarDecl.visitsProperties className l s p, v.Apart top := by
  match l, h with
  | [], _ => exact forall_mem_nil _
  | ⟨_, _, init⟩ :: rest, h =>
    exact forall_mem_append.2 ⟨Expr.apart_visitsOption init _ p (h.expr rfl (sublist_append_left _ _)),
      VarDecl.apart_visitsProperties className rest _ p
        (h.expr (Expr.stack_nextOption init _) (sublist_append_right _ _))⟩

theorem FunctionDecl.apart_visitsList (l : List FunctionDecl) (s s' : Scopes) (scope : Names) (p : List Opener)
    (hs : s'.stack = scope :: s.stack) (h : Placed top s p (FunctionDecl.scopesList l) []) :
    ∀ v ∈ FunctionDecl.visitsList l s' p, v.Apart top := by
  match l, h with
  | [], _ => exact forall_mem_nil _
  | ⟨name, params, body, isStatic⟩ :: rest, h =>
    have hrest := (FunctionDecl.stack_next ⟨name, params, body, isStatic⟩ s').trans hs
    have hfirst := h.expr rfl (sublist_append_left _ (FunctionDecl.scopesList rest))
    exact forall_mem_append.2
      ⟨Stmt.apart_visitsList body _ _ ((hfirst.enterMembers hs).enterBody (Stmt.declared_valueList body _)),
      FunctionDecl.apart_visitsList rest s _ scope p hrest (h.expr rfl (sublist_append_right _ _))⟩

theorem Stmt.apart_visits (t : Stmt) (s : Scopes) (p : List Opener) (h : Placed top s p t.scopes t.declared) :
    ∀ v ∈ t.visits s p, v.Apart top := by
  have hnode : Placed top s p [] t.declared :=
    h.part (declareTop_nil _).symm (nil_subset _) (nil_sublist _) (Subset.refl _)
  match t, h with
  | .block body, h =>
    refine forall_mem_cons.2 ⟨hnode, Stmt.apart_visitsList body _ _ ?_⟩
    rw [Stmt.scopes, ← Stmt.declared_valueList body s.push] at h
    exact Placed.enter (o := .block _) h rfl (forall_mem_nil _) fun x hx => by
      rwa [Opener.names, Stmt.declared_valueList]
  | .branch condition yes no, h =>
    have hs := condition.stack_next s
    refine forall_mem_cons.2 ⟨hnode, forall_mem_append.2 ⟨forall_mem_append.2
      ⟨condition.apart_visits s p (h.expr rfl ?_), yes.apart_visits _ p ?_⟩, Stmt.apart_visitsOption no _ p ?_⟩⟩
    · exact (sublist_append_left _ _).trans (sublist_append_left _ _)
    · exact h.part (hs.trans (declareTop_nil _).symm) (nil_subset _)
        ((sublist_append_right _ _).trans (sublist_append_left _ _)) (subset_append_left _ _)
    · refine h.part ((yes.stack_next _).trans (congrArg _ hs)) (subset_append_left _ _)
        (sublist_append_right _ _) (subset_append_right _ _)
  | .loop condition body, h =>
    have hs := (condition.stack_next s).trans (declareTop_nil _).symm
    exact forall_mem_cons.2 ⟨hnode, forall_mem_append.2
      ⟨condition.apart_visits s p (h.expr rfl (sublist_append_left _ _)),
      body.apart_visits _ p (h.part hs (nil_subset _) (sublist_append_right _ _) (Subset.refl _))⟩⟩
  | .count init condition step body, h =>
    have h₁ := Stmt.stack_nextOption init s
    have h₂ := (Expr.stack_nextOption condition _).trans h₁
    have h₃ := (Expr.stack_nextOption step _).trans h₂
    have hi := sublist_append_left (Stmt.scopesOption init) (Expr.scopesOption condition)
    have hc := sublist_append_right (Stmt.scopesOption init) (Expr.scopesOption condition)
    refine forall_mem_cons.2 ⟨hnode, forall_mem_append.2 ⟨forall_mem_append.2 ⟨forall_mem_append.2
      ⟨Stmt.apart_visitsOption init s p ?_, Expr.apart_visitsOption condition _ p ?_⟩,
      Expr.apart_visitsOption step _ p ?_⟩, body.apart_visits _ p ?_⟩⟩
    · exact h.part (declareTop_nil _).symm (nil_subset _)
        ((hi.trans (sublist_append_left _ _)).trans (sublist_append_left _ _)) (subset_append_left _ _)
    · exact h.part h₁ (subset_append_left _ _)
        ((hc.trans (sublist_append_left _ _)).trans (sublist_append_left _ _)) (nil_subset _)
    · exact h.part h₂ (subset_append_left _ _)
        ((sublist_append_right _ _).trans (sublist_append_left _ _)) (nil_subset _)
    · exact h.part h₃ (subset_append_left _ _) (sublist_append_right _ _) (subset_append_right _ _)
  | .result value, h => exact forall_mem_cons.2 ⟨hnode, Expr.apart_visitsOption value s p h⟩
  | .expr e, h => exact forall_mem_cons.2 ⟨hnode, e.apart_visits s p h⟩
  | .var ⟨_, name, init⟩, h =>
    refine forall_mem_cons.2 ⟨hnode, Expr.apart_visitsOption init _ p ?_⟩
    exact h.part (stack_declare name.text s) (Subset.refl _) (Sublist.refl _) (nil_subset _)
  | .function ⟨name, params, body, _⟩, h =>
    refine forall_mem_cons.2 ⟨hnode, Stmt.apart_visitsList body _ _ ?_⟩
    have h' := h.part (stack_declare name.text s) (Subset.refl _) (Sublist.refl _) (nil_subset _)
    exact h'.enterBody (Stmt.declared_valueList body _)
  | .print value, h => exact forall_mem_cons.2 ⟨hnode, value.apart_visits s p h⟩
  | .classDef name superclass methods properties, h =>
    have h' := h.part (stack_declare name.text s) (Subset.refl _) (Sublist.refl _) (nil_subset _)
    refine forall_mem_cons.2 ⟨hnode, forall_mem_append.2 ⟨fun v hv => ?_,
      VarDecl.apart_visitsProperties name.text properties _ p
        (h'.expr (stack_resolveSuperclass name superclass _) (sublist_append_right _ _))⟩⟩
    obtain ⟨ref, -, rfl⟩ := mem_map.1 hv
    exact h'.expr rfl (nil_sublist _)
  | .classImpl name methods, h =>
    refine forall_mem_cons.2 ⟨hnode, FunctionDecl.apart_visitsList methods (s.implemented name methods) _ _ p
      (stack_declareAll _ _) (h.expr rfl (Sublist.refl _))⟩
  | .typeDef _ _, h => exact forall_mem_cons.2 ⟨hnode, forall_mem_nil _⟩

theorem Stmt.apart_visitsList (l : List Stmt) (s : Scopes) (p : List Opener)
    (h : Placed top s p (Stmt.scopesList l) (Stmt.declaredList l)) : ∀ v ∈ Stmt.visitsList l s p, v.Apart top := by
  match l, h with
  | [], _ => exact forall_mem_nil _
  | t :: rest, h =>
    exact forall_mem_append.2 ⟨t.apart_visits s p (h.part (declareTop_nil _).symm (nil_subset _)
        (sublist_append_left _ _) (subset_append_left _ _)),
      Stmt.apart_visitsList rest _ p (h.part (t.stack_next s) (subset_append_left _ _)
        (sublist_append_right _ _) (subset_append_right _ _))⟩

theorem Stmt.apart_visitsOption (o : Option Stmt) (s : Scopes) (p : List Opener)
    (h : Placed top s p (Stmt.scopesOption o) (Stmt.declaredOption o)) :
    ∀ v ∈ Stmt.visitsOption o s p, v.Apart top := by
  match o, h with
  | none, _ => exact forall_mem_nil _
  | some t, h => exact t.apart_visits s p h

end

end Visits

end ObjScript
