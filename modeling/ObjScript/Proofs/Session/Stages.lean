import ObjScript.Proofs.Session.Live

/-!
# The stages of an orderly program

A program comes in stages: an interface declares a class below the classes that are known already, an implementation
gives methods to one of them, and every other statement belongs to the regime of live properties (`Staged`).  The
analysis leaves an orderly program in such stages (`Orderly.staged`).
-/

namespace ObjScript

open Regime (live)

/-! ### The statements of a program -/

/-- What is known of an interface that comes after the classes in `known`. -/
structure Declares (stmts : List Stmt) (code : List Site) (known : List String) (name : Name) (ref : Ref)
    (properties : List VarDecl) : Prop where
  isName : IsName name.text
  new : name.text ∉ rootClass :: known
  declared : name.text ∈ declaredClasses stmts
  above : ref.name.text ∈ rootClass :: known
  depth : ∀ d, ref.depth = some d → d = 0
  names : ∀ x ∈ properties.map (·.name.text), IsName x
  has : ∀ x, HasProperty stmts name.text x → x ∈ properties.map (·.name.text) ∨ HasProperty stmts ref.name.text x
  values : ∀ a ∈ VarDecl.placesList properties [none], (live stmts code).ok a

/-- What is known of an implementation that comes after the classes in `known`. -/
structure Implements (stmts : List Stmt) (code : List Site) (known : List String) (name : Name)
    (methods : List FunctionDecl) : Prop where
  known : name.text ∈ known
  params : ∀ d ∈ methods, ∀ x ∈ paramNames d.params, (live stmts code).free x
  bodies : ∀ a ∈ FunctionDecl.placesList methods [some name.text, none], (live stmts code).ok a

/-- Statements that come after the classes in `known`: each of them is about a class, or its code belongs to the
regime. -/
inductive Staged (stmts : List Stmt) (code : List Site) : List String → List Stmt → Prop where
  | nil {known : List String} : Staged stmts code known []
  | ordinary {known : List String} {t : Stmt} {rest : List Stmt} (ht : ∀ a ∈ t.places [none], (live stmts code).ok a)
      (h : Staged stmts code known rest) : Staged stmts code known (t :: rest)
  | interface {known : List String} {name : Name} {ref : Ref} {methods : List FunctionDecl}
    {properties : List VarDecl}
      {rest : List Stmt} (ht : Declares stmts code known name ref properties)
      (h : Staged stmts code (known ++ [name.text]) rest) :
      Staged stmts code known (.classDef name (some ref) methods properties :: rest)
  | implementation {known : List String} {name : Name} {methods : List FunctionDecl} {rest : List Stmt}
      (ht : Implements stmts code known name methods) (h : Staged stmts code known rest) :
      Staged stmts code known (.classImpl name methods :: rest)

/-! ### Orderly programs are staged -/

private theorem VarDecl.names_resolveProperties (cls : String) (l : List VarDecl) (s : Scopes) :
    ((VarDecl.resolveProperties cls l).value s).map (·.name.text) = l.map (·.name.text) := by
  induction l generalizing s with
  | nil => rfl
  | cons d rest ih =>
    obtain ⟨type, name, init⟩ := d
    exact congrArg (List.cons name.text) (ih _)

private theorem FunctionDecl.params_resolveList (l : List FunctionDecl) (s : Scopes) :
    ((FunctionDecl.resolveList l).value s).map (·.params) = l.map (·.params) := by
  induction l generalizing s with
  | nil => rfl
  | cons d rest ih =>
    obtain ⟨name, params, body, isStatic⟩ := d
    exact congrArg (List.cons params) (ih _)

section Stages

variable {stmts done rest : List Stmt} {code : List Site} {t : Stmt} {s : Scopes} {σ : List Scope}

/-- Places of sites to which the analysis came belong to the regime. -/
private theorem ok_of_sited {sites : List Site} {places : List Place} (hplaces : places = sites.map Site.place)
    (hsited : AllSited (HasProperty stmts) (Node.Ordinary stmts) sites) (hsub : sites ⊆ code) :
    ∀ a ∈ places, (live stmts code).ok a := by
  intro a ha
  obtain ⟨site, hsite, hplace⟩ := List.mem_map.1 (hplaces ▸ ha)
  exact ⟨site, hsub hsite, hsited site hsite, hplace⟩

/-- The nodes of an orderly program are ordinary unless they are about classes. -/
theorem Orderly.ordinary (h : Orderly stmts) {n : Node} (hn : n ∈ Stmt.nodesList stmts) (hwritten : n.Written)
    (hclass : n.isClass = false) : n.Ordinary stmts := by
  refine ⟨hwritten, hclass, h.names n hn ?_⟩
  match n, hclass with
  | .expr _, _ => rfl
  | .stmt t, hclass => cases t <;> first | rfl | cases hclass

section Statement

variable (h : Orderly stmts) (hwritten : ∀ n ∈ Stmt.nodesList stmts, n.Written) (hstmts : stmts = done ++ t :: rest)

include hstmts

private theorem nodes_subset : t.nodes ⊆ Stmt.nodesList stmts := by
  intro n hn
  refine Stmt.mem_nodesList.2 ⟨t, ?_, hn⟩
  exact hstmts ▸ List.mem_append_right _ List.mem_cons_self

include h hwritten

/-- Below the top level all nodes are ordinary. -/
private theorem Orderly.ordinary_below : ∀ n ∈ t.nodes.tail, n.WellNamed ∧ n.Ordinary stmts := by
  intro n hn
  have hmem := nodes_subset hstmts (List.mem_of_mem_tail hn)
  have ht : t ∈ stmts := hstmts ▸ List.mem_append_right _ List.mem_cons_self
  exact ⟨(hwritten n hmem n n.mem_below).2, h.ordinary hmem (hwritten n hmem) (h.top t ht n hn)⟩

variable (hs : Matches (HasProperty stmts) s.stack σ) (hσ : surroundings σ = [none])
  (hcode : (t.resolve.value s).sites σ ⊆ code)

include hs hσ hcode

/-- An interface of an orderly program. -/
private theorem Orderly.declares {name : Name} {ref : Ref} {methods : List FunctionDecl} {properties : List VarDecl}
    (ht : t = .classDef name (some ref) methods properties)
    (hsuper : ref.name.text ∈ rootClass :: declaredClasses done) :
    ∃ ref' properties', t.resolve.value s = .classDef name (some ref') methods properties' ∧
      Declares stmts code (declaredClasses done) name ref' properties' := by
  have hbelow := h.ordinary_below hwritten hstmts
  have hnode := nodes_subset hstmts (Node.stmt t).mem_below
  have hmem : t ∈ stmts := hstmts ▸ List.mem_append_right _ List.mem_cons_self
  have hnew : name.text ∉ rootClass :: declaredClasses done := h.interface_new hstmts (ht ▸ rfl)
  obtain ⟨-, hnames, -⟩ := hwritten _ hnode _ (Node.stmt t).mem_below
  subst ht
  have hname : IsName name.text := hnames _ List.mem_cons_self
  have hstack : s.stack.length = 1 := by
    rw [hs.length_eq, ← List.length_map (·.owner)]
    exact congrArg List.length hσ
  have href : ref.depth = none := by
    obtain ⟨-, hordinary⟩ := hbelow (.expr (.variable ref)) List.mem_cons_self
    exact (hordinary.written _ (Node.mem_below _)).1
  let s₁ := (Resolve.declare name.text).next s
  let s₂ := (resolveSuperclass name (some ref)).next s₁
  let properties' := (VarDecl.resolveProperties name.text properties).value s₂
  have hproperties : properties'.map (·.name.text) = properties.map (·.name.text) :=
    VarDecl.names_resolveProperties name.text properties s₂
  have hresolve : (Stmt.classDef name (some ref) methods properties).resolve.value s =
      .classDef name (some ⟨ref.name, Resolve.depth? s₁.stack ref.name.text⟩) methods properties' := by
    rw [← value_reference .variable ref s₁ href]
    rfl
  refine ⟨_, properties', hresolve, hname, hnew, List.mem_filterMap.2 ⟨_, hmem, rfl⟩, hsuper, fun d hd => ?_, ?_,
    fun x hx => ?_, ?_⟩
  · have hlt := depth?_lt hd
    rw [stack_declare, length_declareTop, hstack] at hlt
    omega
  · rw [hproperties]
    exact fun x hx => hnames x (List.mem_append_right _ hx)
  · have hcases := hx.cases_of_mem (List.nodup_cons.1 h.once).2 hmem
    rw [hproperties]
    exact hcases
  · have hplaces := VarDecl.placesList_eq properties' (declareIn [name.text] σ)
    rw [surroundings_declareIn, hσ] at hplaces
    refine ok_of_sited hplaces (h.sited_properties hstmts hs hbelow rfl hname) fun site hsite => hcode ?_
    rw [hresolve]
    exact List.mem_cons_of_mem _ (List.mem_append_right _ hsite)

/-- An implementation of an orderly program. -/
private theorem Orderly.implements (hlists : Lists stmts (declaredClasses done) s.classes) {name : Name}
    {methods : List FunctionDecl} (ht : t = .classImpl name methods) (hknown : name.text ∈ declaredClasses done) :
    ∃ methods', t.resolve.value s = .classImpl name methods' ∧
      Implements stmts code (declaredClasses done) name methods' := by
  have hbelow := h.ordinary_below hwritten hstmts
  have hnode := nodes_subset hstmts (Node.stmt t).mem_below
  obtain ⟨hparsed, hnames, -⟩ := hwritten _ hnode _ (Node.stmt t).mem_below
  have hclasses := h.names _ hnode
  subst ht
  have hparams : ∀ d ∈ methods, ∀ x ∈ paramNames d.params, (live stmts code).free x := by
    intro d hd x hx
    have hbinds : x ∈ (Node.stmt (.classImpl name methods)).binds := List.mem_flatMap.2 ⟨d, hd, hx⟩
    exact ⟨hnames x (List.mem_append_left _ hbinds), hclasses rfl x hbinds⟩
  let methods' := (FunctionDecl.resolveList methods).value (s.enterMembers name methods)
  have hresolve : (Stmt.classImpl name methods).resolve.value s = .classImpl name methods' := rfl
  refine ⟨methods', hresolve, hknown, ?_, ?_⟩
  · intro d' hd'
    have hmem : d'.params ∈ methods'.map (·.params) := List.mem_map_of_mem hd'
    rw [FunctionDecl.params_resolveList] at hmem
    obtain ⟨d, hd, heq⟩ := List.mem_map.1 hmem
    rw [← heq]
    exact hparams d hd
  · have hplaces := FunctionDecl.placesList_eq methods' (⟨some name.text, []⟩ :: σ)
    rw [surroundings, List.map_cons, ← surroundings, hσ] at hplaces
    refine ok_of_sited hplaces (h.sited_methods hstmts hknown hlists hs hbelow rfl fun d hd x hx =>
      (hparams d hd x hx).1) fun site hsite => hcode ?_
    rw [hresolve]
    exact List.mem_cons_of_mem _ hsite

end Statement

/-- The analysis leaves the statements in stages. -/
private theorem Orderly.staged_suffix (h : Orderly stmts) (hwritten : ∀ n ∈ Stmt.nodesList stmts, n.Written)
    (hstmts : stmts = done ++ rest) (horder : InOrder (declaredClasses done) rest)
    (hlists : Lists stmts (declaredClasses done) s.classes) (hs : Matches (HasProperty stmts) s.stack σ)
    (hσ : surroundings σ = [none]) (hcode : Stmt.sitesList ((Stmt.resolveList rest).value s) σ ⊆ code) :
    Staged stmts code (declaredClasses done) ((Stmt.resolveList rest).value s) := by
  induction rest generalizing done s σ with
  | nil => exact .nil
  | cons t rest ih =>
    obtain ⟨ht, horder⟩ := horder
    obtain ⟨hfirst, hrest⟩ := List.append_subset.1 hcode
    have hnode := nodes_subset hstmts (Node.stmt t).mem_below
    have hbelow := h.ordinary_below hwritten hstmts
    have hsplit : stmts = (done ++ [t]) ++ rest := by rw [hstmts, List.append_assoc, List.singleton_append]
    have hs₁ : Matches (HasProperty stmts) (t.resolve.next s).stack (declareIn t.declared σ) := by
      rw [t.stack_next]
      exact hs.declareTop (t.isName_declared fun n hn =>
        (hwritten n (nodes_subset hstmts hn) n n.mem_below).2)
    rw [← declaredClasses_concat] at horder
    change Stmt.sitesList ((Stmt.resolveList rest).value (t.resolve.next s))
      (declareIn (t.resolve.value s).declared σ) ⊆ code at hrest
    rw [t.declared_value s] at hrest
    have hnext := ih hsplit horder (h.lists_next hstmts ht hlists) hs₁
      ((surroundings_declareIn _ _).trans hσ) hrest
    rw [declaredClasses_concat] at hnext
    change Staged stmts code (declaredClasses done) (t.resolve.value s :: (Stmt.resolveList rest).value
      (t.resolve.next s))
    by_cases hclass : (Node.stmt t).isClass = false
    · have hordinary := h.ordinary hnode (hwritten _ hnode) hclass
      have hsited := h.sited_statement hstmts ht hlists hs hbelow (hwritten _ hnode _ (Node.mem_below _)).2 hordinary
      have hplaces := (t.resolve.value s).places_eq σ
      rw [hσ] at hplaces
      have hnone : t.interface? = none := by cases t <;> first | rfl | cases hclass
      rw [hnone, Option.toList_none, List.append_nil] at hnext
      exact .ordinary (ok_of_sited hplaces hsited hfirst) hnext
    · match t with
      | .classDef name (some ref) methods properties =>
        obtain ⟨ref', properties', hresolve, hdeclares⟩ :=
          h.declares hwritten hstmts hs hσ hfirst rfl ht
        rw [hresolve]
        exact .interface hdeclares hnext
      | .classDef _ none _ _ => cases ht
      | .classImpl name methods =>
        obtain ⟨methods', hresolve, himplements⟩ := h.implements hwritten hstmts hs hσ hfirst hlists rfl ht
        change Staged stmts code (declaredClasses done ++ []) _ at hnext
        rw [List.append_nil] at hnext
        rw [hresolve]
        exact .implementation himplements hnext
      | .block _ | .branch _ _ _ | .loop _ _ | .count _ _ _ _ | .result _ | .expr _ | .var _ | .function _ | .print _
      | .typeDef _ _ => exact absurd rfl hclass

end Stages

/-- The analysis leaves an orderly program in stages. -/
theorem Orderly.staged {stmts : List Stmt} (h : Orderly stmts) (hwritten : ∀ n ∈ Stmt.nodesList stmts, n.Written) :
    Staged stmts (Stmt.sitesList (resolveProgram Scopes.initial stmts).1 [⟨none, []⟩]) []
      (resolveProgram Scopes.initial stmts).1 := by
  have hmatch : Matches (HasProperty stmts) [[]] [⟨none, []⟩] := .cons ⟨rfl, List.forall_mem_nil _⟩ .nil
  exact h.staged_suffix (s := { Scopes.initial with reports := #[] }) hwritten (List.nil_append _).symm h.order .nil
    hmatch rfl (List.Subset.refl _)

end ObjScript
