import ObjScript.Proofs.Scope.Members

/-!
# What the analysis notes about classes

Interfaces and implementations may stand anywhere, and each of them adds to what is known about its class.  The notes
of a program are what its statements say about classes, in the order in which the analysis comes to them
(`Stmt.notes`); the table after a program is the table before with these notes added (`Stmt.learns`).  So the
superclass of a class is the last one that was noted, and its own members are all that were noted
(`superclass?_noteAll`, `mem_own_noteAll`).

With the search of `Lineage` this says what the members of a class are after any pieces of source
(`members_are_recorded`).
-/

namespace ObjScript

/-- What is said about a class. -/
inductive ClassNote where
  /-- An interface names the superclass, or names none. -/
  | superclass (cls : String) (above : Option String)
  | property (cls name : String)
  | methods (cls : String) (names : List String)

namespace ClassNote

/-- The class that is spoken of. -/
def cls : ClassNote → String
  | superclass cls _ | property cls _ | methods cls _ => cls

/-- What is known about the class then. -/
def add : ClassNote → ClassInfo → ClassInfo
  | superclass _ above, info => { info with superclass := above.or info.superclass }
  | property _ name, info => { info with properties := info.properties ++ [name] }
  | methods _ names, info => { info with methods := info.methods ++ names }

/-- The superclass that is named. -/
def above? : ClassNote → Option String
  | superclass _ above => above
  | property _ _ | methods _ _ => none

/-- The members that are named. -/
def names : ClassNote → List String
  | superclass _ _ => []
  | property _ name => [name]
  | methods _ names => names

end ClassNote

/-- The superclass that the notes name last for a class. -/
def lastSuperclass (notes : List ClassNote) (cls : String) : Option String :=
  notes.reverse.findSome? fun n => if n.cls = cls then n.above? else none

/-- The notes name the member for the class. -/
def Notes (notes : List ClassNote) (cls x : String) : Prop :=
  ∃ n ∈ notes, n.cls = cls ∧ x ∈ n.names

/-! ### Tables with more notes -/

namespace ClassTable

variable {t : ClassTable}

/-- The table with a note. -/
def note (t : ClassTable) (n : ClassNote) : ClassTable :=
  t.update n.cls n.add

/-- The table with several notes, the first one first. -/
def noteAll (t : ClassTable) (notes : List ClassNote) : ClassTable :=
  notes.foldl note t

private theorem noteAll_append (t : ClassTable) (notes more : List ClassNote) :
    t.noteAll (notes ++ more) = (t.noteAll notes).noteAll more :=
  List.foldl_append

/-- The superclass that is known. -/
def superclass? (t : ClassTable) (cls : String) : Option String :=
  (Bindings.get? t cls).bind (·.superclass)

private theorem above_iff {cls above : String} : t.Above cls above ↔ t.superclass? cls = some above :=
  Option.bind_eq_some_iff.symm

private theorem superclass?_note (t : ClassTable) (n : ClassNote) (cls : String) :
    (t.note n).superclass? cls = (if n.cls = cls then n.above? else none).or (t.superclass? cls) := by
  unfold note superclass?
  by_cases hcls : n.cls = cls
  · subst hcls
    have hadd : ∀ info : ClassInfo, (n.add info).superclass = n.above?.or info.superclass := by
      intro info
      cases n <;> rfl
    rw [get?_update_self, if_pos rfl, Option.bind_some, hadd]
    cases Bindings.get? t n.cls <;> rfl
  · rw [get?_update_of_ne (Ne.symm hcls), if_neg hcls, Option.none_or]

private theorem mem_own_note (t : ClassTable) (n : ClassNote) (cls x : String) :
    x ∈ (t.note n).own cls ↔ x ∈ t.own cls ∨ n.cls = cls ∧ x ∈ n.names := by
  unfold note own
  by_cases hcls : n.cls = cls
  · subst hcls
    rw [get?_update_self]
    cases hinfo : Bindings.get? t n.cls with
    | none => cases n <;> simp [ClassNote.add, ClassNote.names, ClassInfo.empty]
    | some info =>
      cases n with
      | superclass _ _ => simp [ClassNote.add, ClassNote.names]
      | property _ name =>
        simp only [ClassNote.add, ClassNote.names, List.mem_append, true_and]
        exact or_right_comm
      | methods _ names =>
        simp only [ClassNote.add, ClassNote.names, List.mem_append, true_and]
        exact or_assoc.symm
  · rw [get?_update_of_ne (Ne.symm hcls)]
    simp [hcls]

/-- The last note of a superclass counts. -/
private theorem superclass?_noteAll (t : ClassTable) (notes : List ClassNote) (cls : String) :
    (t.noteAll notes).superclass? cls = (lastSuperclass notes cls).or (t.superclass? cls) := by
  induction notes using List.reverseRecOn with
  | nil => rfl
  | append_singleton notes n ih =>
    have hlast : lastSuperclass (notes ++ [n]) cls =
        (if n.cls = cls then n.above? else none).or (lastSuperclass notes cls) := by
      unfold lastSuperclass
      rw [List.reverse_append, List.reverse_singleton, List.singleton_append, List.findSome?_cons]
      cases if n.cls = cls then n.above? else none <;> rfl
    rw [noteAll_append, hlast, Option.or_assoc, ← ih]
    exact superclass?_note _ n cls

/-- All notes of members count. -/
private theorem mem_own_noteAll (t : ClassTable) (notes : List ClassNote) (cls x : String) :
    x ∈ (t.noteAll notes).own cls ↔ x ∈ t.own cls ∨ Notes notes cls x := by
  induction notes using List.reverseRecOn with
  | nil => simp [noteAll, Notes]
  | append_singleton notes n ih =>
    rw [noteAll_append]
    refine (mem_own_note _ n cls x).trans ?_
    rw [ih, or_assoc]
    simp [Notes, or_and_right, exists_or]

end ClassTable

/-! ### The notes of a program -/

mutual

/-- The notes of an expression. -/
def Expr.notes : Expr → List ClassNote
  | .literal _ | .variable _ | .selfRef _ | .superRef _ => []
  | .grouping inner => inner.notes
  | .unary _ _ operand => operand.notes
  | .binary left _ _ right | .logical left _ right => left.notes ++ right.notes
  | .ternary condition yes no => condition.notes ++ (yes.notes ++ no.notes)
  | .assign _ _ _ value => value.notes
  | .array items => Expr.notesList items
  | .index object place => object.notes ++ place.notes
  | .setIndex object place _ _ value => value.notes ++ (object.notes ++ place.notes)
  | .get object _ => object.notes
  | .set object _ _ _ value => value.notes ++ object.notes
  | .call callee args => callee.notes ++ Expr.notesList args
  | .block _ _ body => Stmt.notesList body

/-- The notes of each expression of a list. -/
def Expr.notesList : List Expr → List ClassNote
  | [] => []
  | e :: rest => e.notes ++ Expr.notesList rest

/-- The notes of an expression that may be absent. -/
def Expr.notesOption : Option Expr → List ClassNote
  | none => []
  | some e => e.notes

/-- The notes of the properties of an interface and of their initial values. -/
def VarDecl.notesProperties (cls : String) : List VarDecl → List ClassNote
  | [] => []
  | ⟨_, name, init⟩ :: rest =>
    .property cls name.text :: (Expr.notesOption init ++ VarDecl.notesProperties cls rest)

/-- The notes of the body of a function. -/
def FunctionDecl.notes : FunctionDecl → List ClassNote
  | ⟨_, _, body, _⟩ => Stmt.notesList body

/-- The notes of the body of each function of a list. -/
def FunctionDecl.notesList : List FunctionDecl → List ClassNote
  | [] => []
  | d :: rest => d.notes ++ FunctionDecl.notesList rest

/-- The notes of a statement. -/
def Stmt.notes : Stmt → List ClassNote
  | .block body => Stmt.notesList body
  | .branch condition yes no => condition.notes ++ (yes.notes ++ Stmt.notesOption no)
  | .loop condition body => condition.notes ++ body.notes
  | .count init condition step body =>
    Stmt.notesOption init ++ (Expr.notesOption condition ++ (Expr.notesOption step ++ body.notes))
  | .result value => Expr.notesOption value
  | .expr e => e.notes
  | .var ⟨_, _, init⟩ => Expr.notesOption init
  | .function decl => decl.notes
  | .print value => value.notes
  | .classDef name superclass methods properties =>
    .superclass name.text (superclass.map (·.name.text)) ::
      (VarDecl.notesProperties name.text properties ++ [.methods name.text (methods.map (·.name.text))])
  | .classImpl name methods => .methods name.text (methods.map (·.name.text)) :: FunctionDecl.notesList methods
  | .typeDef _ _ => []

/-- The notes of each statement of a list. -/
def Stmt.notesList : List Stmt → List ClassNote
  | [] => []
  | t :: rest => t.notes ++ Stmt.notesList rest

/-- The notes of a statement that may be absent. -/
def Stmt.notesOption : Option Stmt → List ClassNote
  | none => []
  | some t => t.notes

end

namespace Resolve

variable {α β : Type} {notes more : List ClassNote}

/-- The step adds these notes to what is known about classes. -/
def Learns (notes : List ClassNote) (step : Resolve α) : Prop :=
  ∀ s, (step.next s).classes = s.classes.noteAll notes

namespace Learns

private theorem keeps {step : Resolve α} (h : KeepsClasses step) : Learns [] step :=
  h

private theorem pure (a : α) : Learns [] (Pure.pure a : Resolve α) :=
  keeps (.pure a)

private theorem bind {step : Resolve α} {k : α → Resolve β} (h : Learns notes step) (hk : ∀ a, Learns more (k a)) :
    Learns (notes ++ more) (step >>= k) := by
  intro s
  rw [ClassTable.noteAll_append, ← h s]
  exact hk (step.value s) (step.next s)

/-- What comes after the step notes nothing. -/
private theorem only {step : Resolve α} {k : α → Resolve β} (h : Learns notes step) (hk : ∀ a, KeepsClasses (k a)) :
    Learns notes (step >>= k) := by
  have hboth := h.bind fun a => keeps (hk a)
  rwa [List.append_nil] at hboth

private theorem inScope {step : Resolve α} (h : Learns notes step) : Learns notes (inScope step) := by
  have hopen : KeepsClasses (MonadState.modifyGet fun s : Scopes => ((), { s with stack := [] :: s.stack })) :=
    fun _ => rfl
  have hclose : KeepsClasses (MonadState.modifyGet fun s : Scopes => ((), { s with stack := s.stack.tail })) :=
    fun _ => rfl
  exact (keeps hopen).bind fun _ => h.only fun a => hclose.bind fun _ => .pure a

private theorem note (n : ClassNote) : Learns [n] (updateClass n.cls n.add) :=
  fun _ => rfl

end Learns

private theorem learns_resolveSuperclass (name : Name) (superclass : Option Ref) :
    Learns [.superclass name.text (superclass.map (·.name.text))] (resolveSuperclass name superclass) :=
  fun s => classes_resolveSuperclass name superclass s

end Resolve

open Resolve

mutual

private theorem Expr.learns (e : Expr) : Learns e.notes e.resolve := by
  match e with
  | .literal _ => exact .pure _
  | .variable ref | .selfRef ref | .superRef ref =>
    exact .keeps ((KeepsClasses.reference _ ref).bind fun _ => .pure _)
  | .grouping inner => exact inner.learns.only fun _ => .pure _
  | .unary _ _ operand => exact operand.learns.only fun _ => .pure _
  | .binary left _ _ right | .logical left _ right =>
    exact left.learns.bind fun _ => right.learns.only fun _ => .pure _
  | .ternary condition yes no =>
    exact condition.learns.bind fun _ => yes.learns.bind fun _ => no.learns.only fun _ => .pure _
  | .assign target _ _ value =>
    exact value.learns.only fun _ => (KeepsClasses.reference _ target).bind fun _ => .pure _
  | .array items => exact (Expr.learnsList items).only fun _ => .pure _
  | .index object place => exact object.learns.bind fun _ => place.learns.only fun _ => .pure _
  | .setIndex object place _ _ value =>
    exact value.learns.bind fun _ => object.learns.bind fun _ => place.learns.only fun _ => .pure _
  | .get object _ => exact object.learns.only fun _ => .pure _
  | .set object _ _ _ value => exact value.learns.bind fun _ => object.learns.only fun _ => .pure _
  | .call callee args => exact callee.learns.bind fun _ => (Expr.learnsList args).only fun _ => .pure _
  | .block _ params body =>
    have hbody := (Learns.keeps (keepsClasses_declareParams params)).bind fun _ => Stmt.learnsList body
    exact hbody.inScope.only fun _ => .pure _

theorem Expr.learnsList (l : List Expr) : Learns (Expr.notesList l) (Expr.resolveList l) := by
  match l with
  | [] => exact .pure _
  | e :: rest => exact e.learns.bind fun _ => (Expr.learnsList rest).only fun _ => .pure _

private theorem Expr.learnsOption (o : Option Expr) : Learns (Expr.notesOption o) (Expr.resolveOption o) := by
  match o with
  | none => exact .pure _
  | some e => exact e.learns.only fun _ => .pure _

theorem VarDecl.learnsProperties (cls : String) (l : List VarDecl) :
    Learns (VarDecl.notesProperties cls l) (VarDecl.resolveProperties cls l) := by
  match l with
  | [] => exact .pure _
  | ⟨_, name, init⟩ :: rest =>
    exact (Learns.note (.property cls name.text)).bind fun _ => (Expr.learnsOption init).bind fun _ =>
      (VarDecl.learnsProperties cls rest).only fun _ => .pure _

private theorem FunctionDecl.learns (d : FunctionDecl) : Learns d.notes d.resolve := by
  match d with
  | ⟨_, params, body, _⟩ =>
    have hbody := (Learns.keeps (keepsClasses_declareParams params)).bind fun _ => Stmt.learnsList body
    exact hbody.inScope.only fun _ => .pure _

theorem FunctionDecl.learnsList (l : List FunctionDecl) :
    Learns (FunctionDecl.notesList l) (FunctionDecl.resolveList l) := by
  match l with
  | [] => exact .pure _
  | d :: rest => exact d.learns.bind fun _ => (FunctionDecl.learnsList rest).only fun _ => .pure _

private theorem Stmt.learns (t : Stmt) : Learns t.notes t.resolve := by
  match t with
  | .block body => exact (Stmt.learnsList body).inScope.only fun _ => .pure _
  | .branch condition yes no =>
    exact condition.learns.bind fun _ => yes.learns.bind fun _ => (Stmt.learnsOption no).only fun _ => .pure _
  | .loop condition body => exact condition.learns.bind fun _ => body.learns.only fun _ => .pure _
  | .count init condition step body =>
    exact (Stmt.learnsOption init).bind fun _ => (Expr.learnsOption condition).bind fun _ =>
      (Expr.learnsOption step).bind fun _ => body.learns.only fun _ => .pure _
  | .result value => exact (Expr.learnsOption value).only fun _ => .pure _
  | .expr e => exact e.learns.only fun _ => .pure _
  | .var ⟨type, name, init⟩ =>
    have hdecl : Learns (Expr.notesOption init) (VarDecl.resolve ⟨type, name, init⟩) :=
      (Expr.learnsOption init).only fun _ => .pure _
    exact (Learns.keeps (KeepsClasses.declare name.text)).bind fun _ => hdecl.only fun _ => .pure _
  | .function decl =>
    exact (Learns.keeps (KeepsClasses.declare decl.name.text)).bind fun _ => decl.learns.only fun _ => .pure _
  | .print value => exact value.learns.only fun _ => .pure _
  | .classDef name superclass methods properties =>
    rw [Stmt.resolve_classDef]
    have hmethods := Learns.note (.methods name.text (methods.map (·.name.text)))
    exact (Learns.keeps (KeepsClasses.declare name.text)).bind fun _ =>
      (learns_resolveSuperclass name superclass).bind fun _ =>
        (VarDecl.learnsProperties name.text properties).bind fun _ => hmethods.only fun _ => .pure _
  | .classImpl name methods =>
    intro s
    have hbodies := (Learns.keeps (keepsClasses_declareAll
      ("self" :: "super" :: (s.implemented name methods).classes.members name.text))).bind fun _ =>
        FunctionDecl.learnsList methods
    exact hbodies.inScope (s.implemented name methods)
  | .typeDef _ _ => exact .pure _

private theorem Stmt.learnsList (l : List Stmt) : Learns (Stmt.notesList l) (Stmt.resolveList l) := by
  match l with
  | [] => exact .pure _
  | t :: rest => exact t.learns.bind fun _ => (Stmt.learnsList rest).only fun _ => .pure _

private theorem Stmt.learnsOption (o : Option Stmt) : Learns (Stmt.notesOption o) (Stmt.resolveOption o) := by
  match o with
  | none => exact .pure _
  | some t => exact t.learns.only fun _ => .pure _

end

/-! ### What is noted when the analysis comes to a statement -/

/-- The notes of a node that is a statement. -/
def Node.notes : Node → List ClassNote
  | .stmt t => t.notes
  | .expr _ => []

/-- Of these notes the first ones are made when the analysis comes to the node, and those of the node come next. -/
def Noted (notes : List ClassNote) (s : Scopes) (v : Visit) : Prop :=
  ∃ before after, notes = before ++ (v.node.notes ++ after) ∧ v.scopes.classes = s.classes.noteAll before

/-- The analysis comes to all of the nodes with these notes. -/
def AllNoted (notes : List ClassNote) (s : Scopes) (visits : List Visit) : Prop :=
  ∀ v ∈ visits, Noted notes s v

namespace AllNoted

variable {α : Type} {notes more : List ClassNote} {s s' : Scopes} {visits visits' : List Visit}

private theorem nil : AllNoted notes s [] :=
  List.forall_mem_nil _

/-- The analysis comes to a node before it makes a note. -/
private theorem single {v : Visit} (hnotes : v.node.notes <+: notes) (hs : v.scopes.classes = s.classes) :
    AllNoted notes s [v] := by
  obtain ⟨after, rfl⟩ := hnotes
  exact List.forall_mem_singleton.2 ⟨[], after, rfl, hs⟩

private theorem both (h : AllNoted notes s visits) (h' : AllNoted notes s visits') :
    AllNoted notes s (visits ++ visits') :=
  List.forall_mem_append.2 ⟨h, h'⟩

private theorem left (h : AllNoted notes s visits) : AllNoted (notes ++ more) s visits := by
  intro v hv
  obtain ⟨before, after, hnotes, hs⟩ := h v hv
  exact ⟨before, after ++ more, by rw [hnotes]; simp, hs⟩

private theorem right {step : Resolve α} (hstep : Resolve.Learns notes step)
    (h : AllNoted more (step.next s) visits) :
    AllNoted (notes ++ more) s visits := by
  intro v hv
  obtain ⟨before, after, hmore, hs⟩ := h v hv
  refine ⟨notes ++ before, after, by rw [hmore, List.append_assoc], ?_⟩
  rw [ClassTable.noteAll_append, ← hstep s]
  exact hs

private theorem append {step : Resolve α} (h : AllNoted notes s visits) (hstep : Resolve.Learns notes step)
    (h' : AllNoted more (step.next s) visits') : AllNoted (notes ++ more) s (visits ++ visits') :=
  h.left.both (.right hstep h')

/-- The classes are as before. -/
private theorem same (hs : s'.classes = s.classes) (h : AllNoted notes s' visits) : AllNoted notes s visits := by
  intro v hv
  obtain ⟨before, after, hnotes, hclasses⟩ := h v hv
  exact ⟨before, after, hnotes, hs ▸ hclasses⟩

end AllNoted

private theorem classes_enter (s : Scopes) (params : List Param) : (s.enter params).classes = s.classes :=
  keepsClasses_declareParams params s.push

mutual

theorem Expr.allNoted (e : Expr) (s : Scopes) (p : List Opener) : AllNoted e.notes s (e.visits s p) := by
  match e with
  | .literal _ => exact .nil
  | .variable _ | .selfRef _ | .superRef _ => exact .single (List.prefix_refl _) rfl
  | .grouping inner => exact inner.allNoted s p
  | .unary _ _ operand => exact operand.allNoted s p
  | .binary left _ _ right | .logical left _ right =>
    exact (left.allNoted s p).append left.learns (right.allNoted _ p)
  | .ternary condition yes no =>
    unfold Expr.visits
    rw [List.append_assoc]
    have hrest := (yes.allNoted (condition.resolve.next s) p).append yes.learns (no.allNoted _ p)
    exact (condition.allNoted s p).append condition.learns hrest
  | .assign target op pos value =>
    have hlast : AllNoted [] (value.resolve.next s) [⟨.expr (.assign target op pos value),
        .expr ((Expr.assign target op pos value).resolve.value s), value.resolve.next s, p⟩] :=
      .single (List.prefix_refl _) rfl
    have hboth := (value.allNoted s p).append value.learns hlast
    rwa [List.append_nil] at hboth
  | .array items => exact Expr.allNotedList items s p
  | .index object place => exact (object.allNoted s p).append object.learns (place.allNoted _ p)
  | .setIndex object place _ _ value =>
    unfold Expr.visits
    rw [List.append_assoc]
    have hrest := (object.allNoted (value.resolve.next s) p).append object.learns (place.allNoted _ p)
    exact (value.allNoted s p).append value.learns hrest
  | .get object _ => exact object.allNoted s p
  | .set object _ _ _ value => exact (value.allNoted s p).append value.learns (object.allNoted _ p)
  | .call callee args => exact (callee.allNoted s p).append callee.learns (Expr.allNotedList args _ p)
  | .block _ params body => exact .same (classes_enter s params) (Stmt.allNotedList body _ _)

theorem Expr.allNotedList (l : List Expr) (s : Scopes) (p : List Opener) :
    AllNoted (Expr.notesList l) s (Expr.visitsList l s p) := by
  match l with
  | [] => exact .nil
  | e :: rest => exact (e.allNoted s p).append e.learns (Expr.allNotedList rest _ p)

theorem Expr.allNotedOption (o : Option Expr) (s : Scopes) (p : List Opener) :
    AllNoted (Expr.notesOption o) s (Expr.visitsOption o s p) := by
  match o with
  | none => exact .nil
  | some e => exact e.allNoted s p

theorem VarDecl.allNotedProperties (cls : String) (l : List VarDecl) (s : Scopes) (p : List Opener) :
    AllNoted (VarDecl.notesProperties cls l) s (VarDecl.visitsProperties cls l s p) := by
  match l with
  | [] => exact .nil
  | ⟨_, name, init⟩ :: rest =>
    let s₁ := (Resolve.updateClass cls (ClassNote.property cls name.text).add).next s
    have hinit := (Expr.allNotedOption init s₁ p).append (Expr.learnsOption init)
      (VarDecl.allNotedProperties cls rest _ p)
    exact .right (.note (.property cls name.text)) hinit

theorem FunctionDecl.allNoted (d : FunctionDecl) (s : Scopes) (p : List Opener) :
    AllNoted d.notes s (d.visits s p) := by
  match d with
  | ⟨_, params, body, _⟩ => exact .same (classes_enter s params) (Stmt.allNotedList body _ _)

theorem FunctionDecl.allNotedList (l : List FunctionDecl) (s : Scopes) (p : List Opener) :
    AllNoted (FunctionDecl.notesList l) s (FunctionDecl.visitsList l s p) := by
  match l with
  | [] => exact .nil
  | d :: rest => exact (d.allNoted s p).append d.learns (FunctionDecl.allNotedList rest _ p)

theorem Stmt.allNoted (t : Stmt) (s : Scopes) (p : List Opener) : AllNoted t.notes s (t.visits s p) := by
  have hself : AllNoted t.notes s [⟨.stmt t, .stmt (t.resolve.value s), s, p⟩] := .single (List.prefix_refl _) rfl
  unfold Stmt.visits
  refine hself.both ?_
  match t with
  | .block body => exact .same rfl (Stmt.allNotedList body s.push _)
  | .branch condition yes no =>
    dsimp only
    rw [List.append_assoc]
    have hrest := (yes.allNoted (condition.resolve.next s) p).append yes.learns (Stmt.allNotedOption no _ p)
    exact (condition.allNoted s p).append condition.learns hrest
  | .loop condition body => exact (condition.allNoted s p).append condition.learns (body.allNoted _ p)
  | .count init condition step body =>
    dsimp only
    rw [List.append_assoc, List.append_assoc]
    let s₁ := (Stmt.resolveOption init).next s
    let s₂ := (Expr.resolveOption condition).next s₁
    have hstep := (Expr.allNotedOption step s₂ p).append (Expr.learnsOption step) (body.allNoted _ p)
    have hcondition := (Expr.allNotedOption condition s₁ p).append (Expr.learnsOption condition) hstep
    exact (Stmt.allNotedOption init s p).append (Stmt.learnsOption init) hcondition
  | .result value => exact Expr.allNotedOption value s p
  | .expr e => exact e.allNoted s p
  | .var ⟨_, name, init⟩ => exact .same (KeepsClasses.declare name.text s) (Expr.allNotedOption init _ p)
  | .function ⟨name, params, body, _⟩ =>
    have hclasses : (((declare name.text).next s).enter params).classes = s.classes :=
      (classes_enter _ params).trans (KeepsClasses.declare name.text s)
    exact .same hclasses (Stmt.allNotedList body _ _)
  | .print value => exact value.allNoted s p
  | .classDef name superclass methods properties =>
    let s₁ := (declare name.text).next s
    have hs₁ : s₁.classes = s.classes := KeepsClasses.declare name.text s
    refine .same hs₁ (.both ?_ ?_)
    · intro v hv
      obtain ⟨ref, -, rfl⟩ := List.mem_map.1 hv
      exact ⟨[], _, rfl, rfl⟩
    · have hproperties := VarDecl.allNotedProperties name.text properties
        ((resolveSuperclass name superclass).next s₁) p
      exact .right (learns_resolveSuperclass name superclass) hproperties.left
  | .classImpl name methods =>
    have hclasses : (s.enterMembers name methods).classes = (s.implemented name methods).classes :=
      keepsClasses_declareAll _ (s.implemented name methods).push
    have hbodies := (FunctionDecl.allNotedList methods (s.enterMembers name methods) p).same hclasses
    exact hbodies.right (.note (.methods name.text (methods.map (·.name.text))))
  | .typeDef _ _ => exact .nil

private theorem Stmt.allNotedList (l : List Stmt) (s : Scopes) (p : List Opener) :
    AllNoted (Stmt.notesList l) s (Stmt.visitsList l s p) := by
  match l with
  | [] => exact .nil
  | t :: rest => exact (t.allNoted s p).append t.learns (Stmt.allNotedList rest _ p)

theorem Stmt.allNotedOption (o : Option Stmt) (s : Scopes) (p : List Opener) :
    AllNoted (Stmt.notesOption o) s (Stmt.visitsOption o s p) := by
  match o with
  | none => exact .nil
  | some t => exact t.allNoted s p

end

/-! ### The members of a class -/

/-- The class has the member by itself, or inherits it, as the notes say. -/
def HasMember (notes : List ClassNote) (cls x : String) : Prop :=
  ∃ c, Relation.ReflTransGen (fun a b => lastSuperclass notes a = some b) cls c ∧ Notes notes c x

/-- Everything that is known comes from the notes. -/
private theorem mem_members_noteAll (notes : List ClassNote) (cls x : String) :
    x ∈ (ClassTable.noteAll [] notes).members cls ↔ HasMember notes cls x := by
  have habove : (ClassTable.noteAll [] notes).Above = fun a b => lastSuperclass notes a = some b := by
    funext a b
    rw [ClassTable.above_iff, ClassTable.superclass?_noteAll]
    exact congrArg (· = some b) Option.or_none
  rw [ClassTable.mem_members_iff, habove]
  refine exists_congr fun c => and_congr_right fun _ => ?_
  rw [ClassTable.mem_own_noteAll]
  exact or_iff_right List.not_mem_nil

/-- What the analysis knows after some pieces of source. -/
def scopesAfter (pieces : List (List Stmt)) : Scopes :=
  pieces.foldl (fun s piece => (resolveProgram s piece).2) .initial

private theorem classes_scopesAfter (pieces : List (List Stmt)) :
    (scopesAfter pieces).classes = ClassTable.noteAll [] (pieces.flatMap Stmt.notesList) := by
  induction pieces using List.reverseRecOn with
  | nil => rfl
  | append_singleton pieces piece ih =>
    have hlast : (scopesAfter (pieces ++ [piece])).classes =
        (scopesAfter pieces).classes.noteAll (Stmt.notesList piece) := by
      unfold scopesAfter
      rw [List.foldl_append]
      exact Stmt.learnsList piece _
    rw [hlast, ih, ← ClassTable.noteAll_append, List.flatMap_append, List.flatMap_singleton]

/-- **The search for members is an exact closure, and it ends.**  Whatever classes the pieces of source declare and
implement, in circles, twice or with superclasses that there are not: the search for the members of a class comes by
each known class once at most, and it finds the members that were noted so far for the class and for all that are
above it by the superclasses that were noted last.  That holds after the pieces, and also within a piece, at each
implementation that the analysis comes to. -/
theorem members_are_recorded (pieces : List (List Stmt)) :
    (∀ cls, let t := (scopesAfter pieces).classes
      (t.line cls).Nodup ∧ (t.line cls).length ≤ t.length ∧
        ∀ x, x ∈ t.members cls ↔ HasMember (pieces.flatMap Stmt.notesList) cls x) ∧
    ∀ piece, ∀ v ∈ Stmt.visitsList piece { scopesAfter pieces with reports := #[] } [.program],
      ∀ name methods, v.node = .stmt (.classImpl name methods) →
        ∃ before after, Stmt.notesList piece = before ++ .methods name.text (methods.map (·.name.text)) :: after ∧
          ∀ x, x ∈ (v.scopes.implemented name methods).classes.members name.text ↔
            HasMember (pieces.flatMap Stmt.notesList ++ before ++ [.methods name.text (methods.map (·.name.text))])
              name.text x := by
  refine ⟨fun cls => ⟨ClassTable.nodup_line _ cls, ClassTable.length_line_le _ cls, fun x => ?_⟩, ?_⟩
  · rw [classes_scopesAfter]
    exact mem_members_noteAll _ cls x
  · intro piece v hv name methods hnode
    obtain ⟨before, after, hnotes, hclasses⟩ := Stmt.allNotedList piece _ _ v hv
    rw [hnode] at hnotes
    refine ⟨before, FunctionDecl.notesList methods ++ after, hnotes, fun x => ?_⟩
    have himplemented : (v.scopes.implemented name methods).classes = ClassTable.noteAll []
        (pieces.flatMap Stmt.notesList ++ before ++ [.methods name.text (methods.map (·.name.text))]) := by
      rw [ClassTable.noteAll_append, ClassTable.noteAll_append, ← classes_scopesAfter]
      exact congrArg (ClassTable.note · (.methods name.text (methods.map (·.name.text)))) hclasses
    rw [himplemented]
    exact mem_members_noteAll _ name.text x

/-- Two interfaces, each of which names the other class as its superclass. -/
def circleOfClasses : List Stmt :=
  [.classDef ⟨"A", ⟨1, 12⟩⟩ (some ⟨⟨"B", ⟨1, 16⟩⟩, none⟩) []
      [⟨.named ⟨.keyword .intType, "int", ⟨1, 28⟩⟩, ⟨"x", ⟨1, 32⟩⟩, none⟩],
    .classDef ⟨"B", ⟨2, 12⟩⟩ (some ⟨⟨"A", ⟨2, 16⟩⟩, none⟩) [] []]

/-- An implementation in the next piece knows the property of the other class. -/
theorem members_are_recorded_in_circle :
    ∃ v ∈ Stmt.visitsList [.classImpl ⟨"B", ⟨1, 17⟩⟩ []] { scopesAfter [circleOfClasses] with reports := #[] }
        [.program],
      v.node = .stmt (.classImpl ⟨"B", ⟨1, 17⟩⟩ []) ∧
        "x" ∈ (v.scopes.implemented ⟨"B", ⟨1, 17⟩⟩ []).classes.members "B" := by
  have hv := List.mem_append_left
    (Stmt.visitsList [] ((Stmt.classImpl ⟨"B", ⟨1, 17⟩⟩ []).resolve.next
      { scopesAfter [circleOfClasses] with reports := #[] }) [.program])
    (Stmt.mem_visits (.classImpl ⟨"B", ⟨1, 17⟩⟩ []) { scopesAfter [circleOfClasses] with reports := #[] } [.program])
  obtain ⟨before, after, hnotes, hmembers⟩ :=
    (members_are_recorded [circleOfClasses]).2 [.classImpl ⟨"B", ⟨1, 17⟩⟩ []] _ hv ⟨"B", ⟨1, 17⟩⟩ [] rfl
  refine ⟨_, hv, rfl, (hmembers "x").2 ?_⟩
  obtain ⟨rfl, -⟩ : before = [] ∧ after = [] := by
    cases before with
    | nil => exact ⟨rfl, (List.cons.inj hnotes).2.symm⟩
    | cons n before => cases before <;> cases hnotes
  have hnote : ClassNote.property "A" "x" ∈ Stmt.notesList circleOfClasses :=
    List.mem_cons_of_mem _ List.mem_cons_self
  have hnotes : ClassNote.property "A" "x" ∈ [circleOfClasses].flatMap Stmt.notesList ++ [] ++ [.methods "B" []] := by
    rw [List.flatMap_singleton, List.append_nil]
    exact List.mem_append_left _ hnote
  exact ⟨"A", .single (by decide), _, hnotes, rfl, List.mem_singleton_self _⟩

end ObjScript
