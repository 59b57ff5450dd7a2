import ObjScript.Proofs.Session.Code
import ObjScript.Proofs.Store.Writes

/-!
# Compound assignments

`x += e` reads `x` once `e` has been evaluated, and writes the sum back.  Without a depth both go to the nearest
frame that owns `x`.  With one the reading begins at the frame that lies so far outward and may find `x` further
out, while the writing is done in that very frame.  So the binding that was read is the one that is written unless
the analysis counted on a declaration in a nearer scope that was not executed.  Then the frame of that scope gets a
binding of its own, and the one that was read keeps its value (`compound_assignment_writes`).
-/

namespace ObjScript

namespace Store

variable {s t : Store} {f k : FrameId} {x y : String} {v w : Value}

/-- The frame has come to hold the value, and no other frame that was there has other bindings than before. -/
structure Rebound (s t : Store) (f : FrameId) (x : String) (w : Value) : Prop where
  holds : t.own? f x = some (.value w)
  others : ∀ k : FrameId, k ≠ f → k.index < s.frames.size → (t.frame k).bindings = (s.frame k).bindings

/-- There are more frames, and nothing else is different. -/
structure Widened (s t : Store) : Prop where
  size : s.frames.size ≤ t.frames.size
  old : ∀ k : FrameId, k.index < s.frames.size → t.frame k = s.frame k
  classes : t.classes = s.classes
  instances : t.instances = s.instances

theorem Widened.refl (s : Store) : s.Widened s :=
  ⟨Nat.le_refl _, fun _ _ => rfl, rfl, rfl⟩

theorem Widened.push (s : Store) (new : Frame) : s.Widened { s with frames := s.frames.push new } := by
  refine ⟨?_, fun k hk => ?_, rfl, rfl⟩
  · show s.frames.size ≤ (s.frames.push new).size
    rw [Array.size_push]
    exact Nat.le_succ _
  · rw [frame_push, if_neg (Nat.ne_of_lt hk)]

theorem Widened.own? (h : s.Widened t) (hk : k.index < s.frames.size) (x : String) : t.own? k x = s.own? k x :=
  own?_congr (h.old k hk) h.classes h.instances x

/-- A frame that does not own a name gets a binding of its own, and other frames stay as they are. -/
private theorem own?_define_of_not_owns (hf : s.owns f x = false) (hk : k ≠ f) :
    (s.define f x v).own? k y = s.own? k y := by
  refine own?_congr (frame_define_of_ne hk x v) ?_ ?_ y
  all_goals
    rcases s.define_cases f x v with h | ⟨i, hi, hbinding, hproperty, -⟩
    · rw [h]
      rfl
    · have howns : s.owns f x = true := Shows.owns ⟨hi, hbinding, hproperty⟩
      rw [hf] at howns
      cases howns

theorem Widened.rebound (h : s.Widened t) (hf : f.index < s.frames.size) : s.Rebound (t.define f x w) f x w := by
  refine ⟨(overwrites_define (Nat.lt_of_lt_of_le hf h.size) x w).own?_self, fun k hk hlt => ?_⟩
  rw [frame_define_of_ne hk, h.old k hlt]

end Store

namespace Run

variable {env : Env} {ref : Ref} {m : Machine}

/-- Reading a name may bind a method, which makes a frame. -/
theorem result_read_widened (env : Env) (ref : Ref) (m : Machine) :
    ∃ v s, (read env ref).result m = (.ok v, { m with store := s }) ∧ m.store.Widened s := by
  unfold read
  rw [result_readName]
  cases m.store.lookup? (refEnv env ref) ref.name.text with
  | none => exact ⟨_, _, rfl, .refl _⟩
  | some found =>
    cases found with
    | value v => exact ⟨_, _, rfl, .refl _⟩
    | method f i superclass => exact ⟨_, _, rfl, .push _ _⟩

/-- An addition gives a value or fails; the machine stays as it is. -/
private theorem result_add (v w : Value) (pos : Pos) : (∃ u, ∀ m : Machine, (add v w pos).result m = (.ok u, m)) ∨
    ∃ fault, ∀ m : Machine, (add v w pos).result m = (.error (.fault fault), m) := by
  unfold add
  split
  · exact .inl ⟨_, fun _ => rfl⟩
  · exact .inl ⟨_, fun _ => rfl⟩
  · exact .inl ⟨_, fun _ => rfl⟩
  · exact .inl ⟨_, fun _ => rfl⟩
  · exact .inr ⟨_, fun _ => rfl⟩

end Run

/-- The frame that a reference is written to, if it was found in `owner` behind the frames of `inner`. -/
def Ref.written (ref : Ref) (inner : Env) (owner : FrameId) : FrameId :=
  match ref.depth, inner with
  | some _, f :: _ => f
  | _, _ => owner

private theorem Run.result_assign {env inner outer : Env} {ref : Ref} {owner : FrameId} {m : Machine}
    (henv : Run.refEnv env ref = inner ++ owner :: outer)
    (hinner : ∀ k ∈ inner, m.store.owns k ref.name.text = false) (howner : m.store.owns owner ref.name.text = true)
    (w : Value) : (Run.assign env ref w).result m =
      (.ok (), { m with store := m.store.define (ref.written inner owner) ref.name.text w }) := by
  obtain ⟨name, depth⟩ := ref
  cases depth with
  | some d =>
    have henv : env.ancestor d = inner ++ owner :: outer := henv
    change ((.ok (), { m with store := m.store.defineIn (env.ancestor d) name.text w }) :
      Except Stop Unit × Machine) = _
    rw [henv]
    cases inner with
    | nil => rfl
    | cons f inner => rfl
  | none =>
    have henv : env = inner ++ owner :: outer := henv
    have hfind : env.find? (m.store.owns · name.text) = some owner := by
      rw [henv, List.find?_append, List.find?_eq_none.2 fun k hk => by simpa using hinner k hk]
      exact List.find?_cons_of_pos (p := (m.store.owns · name.text)) howner
    unfold Run.assign
    dsimp only
    rw [Run.result_get_bind, Store.assign?, hfind]
    rfl

/-- Evaluating an expression leaves a sound store, with all of its frames. -/
private theorem Store.Sound.eval {m : Machine} {env : Env} (hm : m.store.Sound) (henv : m.store.IsChain env) (n : Nat)
    (e : Expr) : (((interp n).eval env e).result m).2.store.Sound ∧
      m.store.frames.size ≤ (((interp n).eval env e).result m).2.store.frames.size := by
  obtain ⟨p, hfollows⟩ : ∃ p, Regime.any.Follows m.store env p :=
    Regime.follows_apart henv fun _ _ => List.not_mem_nil
  obtain ⟨r, m', hresult, -, hinv, hafter, -⟩ :=
    (Regime.agree_interp (R := .any) (fun _ _ h => h.1) n).eval hfollows (fun _ _ => trivial) (Regime.inv_any hm) m
      rfl
  rw [hresult]
  exact ⟨(Regime.sound_of_inv hinv).1, hafter.later.frames⟩

private theorem Run.refEnv_subset (env : Env) (ref : Ref) : Run.refEnv env ref ⊆ env := by
  unfold Run.refEnv
  cases ref.depth with
  | none => exact List.Subset.refl _
  | some d => exact Regime.ancestor_subset env d

/-- What a compound assignment to a variable does if the name is found: the frames of `inner` do not own it and
`owner` does.  Either there is no sum of the values, and nothing is written; or the frame that the reference is
written to holds the sum afterwards, and no other frame has other bindings than before.  If that is another frame
than the one in which the name was found, then it did not own the name, and what was found is still there. -/
def WritesBack (env : Env) : Node → Machine → Prop
  | .expr (.assign ref op pos value), m => op.isCompound = true →
    ∀ n v m₁, ((interp n).eval env value).result m = (.ok v, m₁) →
    ∀ inner owner outer, Run.refEnv env ref = inner ++ owner :: outer →
      (∀ k ∈ inner, m₁.store.owns k ref.name.text = false) → m₁.store.owns owner ref.name.text = true →
      (∃ fault m₂, ((interp (n + 1)).eval env (.assign ref op pos value)).result m = (.error (.fault fault), m₂) ∧
        m₁.store.Widened m₂.store) ∨
      ∃ w m₂, ((interp (n + 1)).eval env (.assign ref op pos value)).result m = (.ok w, m₂) ∧
        m₁.store.Rebound m₂.store (ref.written inner owner) ref.name.text w ∧
        (ref.written inner owner ≠ owner →
          m₁.store.owns (ref.written inner owner) ref.name.text = false ∧
          m₂.store.own? owner ref.name.text = m₁.store.own? owner ref.name.text)
  | _, _ => True

private theorem Ref.written_mem (ref : Ref) (inner : Env) (owner : FrameId) :
    ref.written inner owner = owner ∨ ref.written inner owner ∈ inner := by
  unfold Ref.written
  split
  · exact .inr List.mem_cons_self
  · exact .inl rfl

/-- A compound assignment adds to what was read, and then it assigns.  Reading may make a frame. -/
private theorem Run.result_compound {env : Env} (ref : Ref) {op : AssignOp} (hop : op.isCompound = true) (pos : Pos)
    {value : Expr} {n : Nat} {v : Value} {m m₁ : Machine} (hv : ((interp n).eval env value).result m = (.ok v, m₁)) :
    ∃ old s, m₁.store.Widened s ∧ ((interp (n + 1)).eval env (.assign ref op pos value)).result m =
      (Run.add old v pos >>= fun w => Run.assign env ref w >>= fun _ => pure w).result { m₁ with store := s } := by
  obtain ⟨old, s, hread, hwide⟩ := Run.result_read_widened env ref m₁
  refine ⟨old, s, hwide, ?_⟩
  change ((interp n).eval env value >>= fun v => Run.assigned op pos (Run.read env ref) v >>= fun w =>
    Run.assign env ref w >>= fun _ => pure w).result m = _
  unfold Run.assigned
  rw [Run.result_bind, hv]
  dsimp only
  rw [if_pos hop, bind_assoc, Run.result_bind, hread]
  rfl

/-- What is written in a wider store is the only change.  A frame that did not own the name hides what was found. -/
private theorem Store.Widened.written {s s' : Store} (h : s.Widened s') (ref : Ref) {inner : Env} {owner : FrameId}
    (hlt : ∀ k ∈ inner, k.index < s.frames.size) (howner : owner.index < s.frames.size)
    (hinner : ∀ k ∈ inner, s.owns k ref.name.text = false) (w : Value) :
    let s₂ := s'.define (ref.written inner owner) ref.name.text w
    s.Rebound s₂ (ref.written inner owner) ref.name.text w ∧
      (ref.written inner owner ≠ owner → s.owns (ref.written inner owner) ref.name.text = false ∧
        s₂.own? owner ref.name.text = s.own? owner ref.name.text) := by
  refine ⟨h.rebound ?_, fun hne => ?_⟩
  · rcases ref.written_mem inner owner with hw | hw
    · rw [hw]
      exact howner
    · exact hlt _ hw
  · have hmem := (ref.written_mem inner owner).resolve_left hne
    have howns : s'.owns (ref.written inner owner) ref.name.text = false :=
      (congrArg Option.isSome (h.own? (hlt _ hmem) _)).trans (hinner _ hmem)
    refine ⟨hinner _ hmem, ?_⟩
    rw [Store.own?_define_of_not_owns howns (Ne.symm hne)]
    exact h.own? howner _

private theorem writesBack_of_sound {env : Env} {m : Machine} (hm : m.store.Sound) (henv : m.store.IsChain env)
    (node : Node) :
    WritesBack env node m := by
  unfold WritesBack
  split
  case h_2 => trivial
  case h_1 ref op pos value =>
    intro hop n v m₁ hv inner owner outer hsplit hinner howner
    obtain ⟨hm₁, hsize⟩ := hm.eval henv n value
    rw [hv] at hm₁ hsize
    have hchain : ∀ k ∈ inner ++ owner :: outer, k.index < m₁.store.frames.size := fun k hk =>
      (henv.mono hsize).lt_size hm₁.globals k (Run.refEnv_subset env ref (hsplit ▸ hk))
    have hinner_lt : ∀ k ∈ inner, k.index < m₁.store.frames.size := fun k hk =>
      hchain k (List.mem_append_left _ hk)
    have howner_lt : owner.index < m₁.store.frames.size :=
      hchain owner (List.mem_append_right _ List.mem_cons_self)
    obtain ⟨old, s, hwide, hresult⟩ := Run.result_compound ref hop pos hv
    rw [hresult, Run.result_bind]
    rcases Run.result_add old v pos with ⟨w, hadd⟩ | ⟨fault, hadd⟩
    · right
      rw [hadd]
      dsimp only
      -- reading may have made a frame, but it has not changed which frames own the name
      have howns : ∀ k, k.index < m₁.store.frames.size → s.owns k ref.name.text = m₁.store.owns k ref.name.text :=
        fun k hk => congrArg Option.isSome (hwide.own? hk _)
      have hassign := Run.result_assign (m := { m₁ with store := s }) hsplit
        (fun k hk => (howns k (hinner_lt k hk)).trans (hinner k hk)) ((howns owner howner_lt).trans howner) w
      rw [Run.result_bind, hassign]
      exact ⟨w, _, rfl, hwide.written ref hinner_lt howner_lt hinner w⟩
    · left
      rw [hadd]
      exact ⟨fault, _, rfl, hwide⟩

/-- Throughout every session a compound assignment writes to the frame that its depth leads to, and without a depth
to the one in which the name was found. -/
theorem compound_assignment_writes (input : List String) (clock : Nat → Float) (threshold : Nat)
    (sources : List String) :
    (Session.initial (Machine.initial input clock threshold)).Always sources WritesBack :=
  Session.always_of_sound (fun hm henv => writesBack_of_sound hm henv _) input clock threshold sources

/-- The loop with its own `x` is not executed: the block gets the sum, and the `x` that was read stays. -/
example :
    let source := "id x = @\"a\"; \x7b if (NO) for (id x = nil; NO; ) \x7b \x7d x += @\"b\"; print x; \x7d print x;"
    ((Session.initial (Machine.initial [] (fun _ => 0) 30)).execute source).2.machine.printed = "ab\na\n" := by
  decide +kernel

end ObjScript
