import ObjScript.Proofs.Eval.Agreement
import ObjScript.Proofs.Store.Sound

/-!
# What a block has captured

A block literal runs on copies of the frames around it.  The copies and the frames they were made from go separate
ways: no function but the block holds the copies, so nothing that is run before the block is called changes them,
and the block does not hold the old frames, so it changes them only through what it calls
(`captured_frames_are_apart`).

Both halves are instances of one regime: a run whose code never comes to run on given frames leaves these frames
alone (`Regime.apart`).
-/

namespace ObjScript

/-- Code that does not run on the frames.  Functions that hold one of them are not called, and so what is seen of the
frames stays the same. -/
def Regime.apart {β : Type} (frames : List FrameId) (E : Value → Prop) (view : Frame → β) : Regime where
  kept _ := False
  free _ := True
  ok _ := True
  follows _ f _ := f ∉ frames
  exempt s v := E v ∧ v.SoundIn s
  exemptMethod s f := (∀ frame, E (.function { f with env := frame :: f.env })) ∧ s.IsChain f.env
  implements _ _ _ := True
  inv s := .globals ∉ frames ∧ ∀ f ∈ frames, f.index < s.frames.size
  stable s t := ∀ f ∈ frames, view (t.frame f) = view (s.frame f)

namespace Regime

variable {β : Type} {frames : List FrameId} {E : Value → Prop} {view : Frame → β} {s t : Store} {env : Env}
  {p : Surroundings}

/-- A change that leaves the frames as they are. -/
private theorem apart_ofFrames (hs : (apart frames E view).inv s) (ht : t.frames = s.frames) :
    (apart frames E view).inv t ∧ (apart frames E view).stable s t := by
  refine ⟨⟨hs.1, fun f hf => ?_⟩, fun f _ => ?_⟩
  · rw [ht]
    exact hs.2 f hf
  · rw [Store.frame, ht]
    rfl

instance : (apart frames E view).Lawful where
  not_kept _ h := h
  binds _ _ _ := trivial
  implements_of_ok _ _ _ := trivial
  stable_refl _ _ _ := rfl
  stable_trans h h' f hf := (h' f hf).trans (h f hf)
  follows_mono _ _ _ h := h
  implements_mono _ _ _ := trivial
  exempt_mono h hv := ⟨hv.1, hv.2.mono h.frames h.classes h.instances⟩
  exemptMethod_mono h hf := ⟨hf.1, hf.2.mono h.frames⟩
  exempt_bound := by
    rintro s f frame hne hlt ⟨hE, frames, henv, hframes⟩
    refine ⟨hE frame, frame :: frames, congrArg (List.cons frame) henv, ?_⟩
    exact List.forall_mem_cons.2 ⟨⟨hne, hlt⟩, hframes⟩
  makes hs _ hmem := Nat.lt_irrefl _ (hs.extra.2 _ hmem)
  change := by
    intro s t hs h
    cases h with
    | frame _ =>
      refine ⟨⟨hs.extra.1, fun f hf => ?_⟩, fun f hf => ?_⟩
      · rw [Array.size_push]
        exact Nat.lt_succ_of_lt (hs.extra.2 f hf)
      · rw [Store.frame_push, if_neg (Nat.ne_of_lt (hs.extra.2 f hf))]
    | arrays => exact apart_ofFrames hs.extra rfl
    | allocate => exact apart_ofFrames hs.extra rfl
    | @define f x v hf =>
      refine ⟨⟨hs.extra.1, fun k hk => ?_⟩, fun k hk =>
        congrArg view (Store.frame_define_of_ne (fun hkf => ?_) x v)⟩
      · rw [Store.size_define]
        exact hs.extra.2 k hk
      · subst hkf
        by_cases hglobals : k = .globals
        · exact hs.extra.1 (hglobals ▸ hk)
        · obtain ⟨-, l, hl⟩ := hf hglobals
          exact hl hk
    | property => exact apart_ofFrames hs.extra rfl
    | newClass => exact apart_ofFrames hs.extra rfl
    | implement => exact apart_ofFrames hs.extra rfl

/-- Chains without the frames are those that code may run on. -/
theorem follows_apart (henv : s.IsChain env) (hframes : ∀ f ∈ env, f ∉ frames) :
    ∃ p, (apart frames E view).Follows s env p := by
  obtain ⟨fs, rfl, hfs⟩ := henv
  induction fs with
  | nil => exact ⟨[], .globals⟩
  | cons f fs ih =>
    obtain ⟨⟨hne, hlt⟩, hfs⟩ := List.forall_mem_cons.1 hfs
    obtain ⟨hf, hframes⟩ := List.forall_mem_cons.1 hframes
    obtain ⟨p, h⟩ := ih hfs hframes
    exact ⟨none :: p, .scope hne hlt hf h⟩

theorem isChain_of_follows (h : (apart frames E view).Follows s env p) (hs : .globals ∉ frames) :
    s.IsChain env ∧ ∀ f ∈ env, f ∉ frames := by
  induction h with
  | globals => exact ⟨⟨[], rfl, List.forall_mem_nil _⟩, List.forall_mem_singleton.2 hs⟩
  | @scope f _ _ _ hne hlt hf _ ih =>
    obtain ⟨⟨fs, rfl, hfs⟩, hout⟩ := ih
    exact ⟨⟨f :: fs, rfl, List.forall_mem_cons.2 ⟨⟨hne, hlt⟩, hfs⟩⟩, List.forall_mem_cons.2 ⟨hf, hout⟩⟩

private theorem runnable_apart {params : List Param} {body : List Stmt} (henv : s.IsChain env)
    (hframes : ∀ f ∈ env, f ∉ frames) : (apart frames E view).Runnable s params body env := by
  obtain ⟨p, h⟩ : ∃ p, (apart frames E view).Follows s env p := follows_apart henv hframes
  exact ⟨p, h, fun _ _ => trivial, fun _ _ => trivial⟩

private theorem good_apart {v : Value} (hv : v.SoundIn s) (hE : E v ∨ v.holds frames = false) :
    (apart frames E view).Good s v := by
  match v, hv with
  | .function f, hv =>
    exact hE.imp (⟨·, hv⟩) fun h => runnable_apart hv (Value.holds_eq_false (v := .function f).1 h)
  | .block b, hv => exact hE.imp (⟨·, hv⟩) fun h => runnable_apart hv (Value.holds_eq_false (v := .block b).1 h)
  | .object _, hv | .native (.init _), hv | .classRef _, hv | .native (.alloc _), hv => exact hv
  | .null, _ | .number _, _ | .string _, _ | .bool _, _ | .array _, _ | .builtin _, _ => trivial
  | .native .clock, _ | .native .array, _ | .native .readLine, _ | .native .printLine, _ | .native .int, _ => trivial

private theorem soundIn_of_good {v : Value} (hv : (apart frames E view).Good s v) (hs : .globals ∉ frames) :
    v.SoundIn s ∧ (E v ∨ v.holds frames = false) := by
  have hdata : ∀ {v : Value}, v.chain = [] → E v ∨ v.holds frames = false :=
    fun h => .inr (by rw [Value.holds, h]; rfl)
  cases v with
  | function | block =>
    obtain h | ⟨p, h, -⟩ := hv
    · exact ⟨h.2, .inl h.1⟩
    · obtain ⟨hchain, hout⟩ := isChain_of_follows h hs
      exact ⟨hchain, .inr (Value.holds_eq_false.2 hout)⟩
  | object | classRef => exact ⟨hv, hdata rfl⟩
  | native n => cases n <;> exact ⟨hv, hdata rfl⟩
  | null | number | string | bool | array | builtin => exact ⟨trivial, hdata rfl⟩

/-- A sound store keeps to the regime if only what is not called holds the frames. -/
private theorem inv_apart (hs : s.Sound) (hheld : s.HeldOnlyBy E frames) (hframes : (apart frames E view).inv s) :
    (apart frames E view).Inv s where
  values := (hs.values.and hheld).mono (fun _ hv => good_apart hv.1 hv.2) fun _ _ => trivial
  methods := by
    intro c q hq
    obtain ⟨hsound, hmethod⟩ := (hs.values.and hheld).classMethods c q hq
    match hm : q.2, hsound with
    | .alloc, _ => trivial
    | .closure f, hsound =>
      refine ⟨"", trivial, (hmethod f hm).imp (⟨·, hsound⟩) fun hout => ?_⟩
      obtain ⟨p, h⟩ : ∃ p, (apart frames E view).Follows s f.env p := follows_apart hsound hout
      exact ⟨p, h, fun _ _ => trivial, fun _ _ => trivial⟩
  globals := hs.globals
  receivers := hs.receivers
  classes := hs.classes
  lineages := hs.lineages
  extra := hframes

theorem sound_of_inv (hs : (apart frames E view).Inv s) : s.Sound ∧ s.HeldOnlyBy E frames := by
  have hvalue : ∀ v, (apart frames E view).Good s v → v.SoundIn s ∧ (E v ∨ v.holds frames = false) :=
    fun v hv => soundIn_of_good hv hs.extra.1
  have hmethods : ∀ c ∈ s.classes, c.methods.All fun m => m.SoundIn s ∧ ∀ f, m = .closure f →
      (∀ frame, E (.function { f with env := frame :: f.env })) ∨ ∀ g ∈ f.env, g ∉ frames := by
    rintro c hc ⟨x, m⟩ hq
    obtain ⟨i, hi, rfl⟩ := Array.getElem_of_mem hc
    have hclass : s.classOf ⟨i⟩ = s.classes[i] := by
      rw [Store.classOf, Array.getD_eq_getD_getElem?, Array.getElem?_eq_getElem hi]
      rfl
    have hgood := hs.methods ⟨i⟩ _ (hclass ▸ hq)
    cases m with
    | alloc => exact ⟨trivial, by simp⟩
    | closure f =>
      obtain ⟨-, -, hf | ⟨p, h, -⟩⟩ := hgood
      · exact ⟨hf.2, fun g hg => .inl (Method.closure.inj hg ▸ hf.1)⟩
      · obtain ⟨hchain, hout⟩ := isChain_of_follows h hs.extra.1
        exact ⟨hchain, fun g hg => .inr (Method.closure.inj hg ▸ hout)⟩
  have hall :
      s.Holds (fun v => v.SoundIn s ∧ (E v ∨ v.holds frames = false)) fun m => m.SoundIn s ∧ ∀ f, m = .closure f →
      (∀ frame, E (.function { f with env := frame :: f.env })) ∨ ∀ g ∈ f.env, g ∉ frames :=
    { hs.values.mono hvalue fun _ => id with methods := hmethods }
  refine ⟨⟨?_, hs.globals, hs.receivers, hs.classes, hs.lineages⟩, ?_⟩
  · exact hall.mono (fun _ h => h.1) fun _ h => h.1
  · exact hall.mono (fun _ h => h.2) fun _ h => h.2

/-- Everything that holds a frame holds it. -/
private theorem heldOnlyBy_holds (s : Store) (frames : List FrameId) :
    s.HeldOnlyBy (·.holds frames = true) frames := by
  have hmethod : ∀ f : Closure, (∀ frame, Value.holds frames (.function { f with env := frame :: f.env }) = true) ∨
      ∀ g ∈ f.env, g ∉ frames := by
    intro f
    by_cases hf : ∃ g ∈ f.env, g ∈ frames
    · obtain ⟨g, hg, hmem⟩ := hf
      exact .inl fun frame => Value.holds_eq_true.2 ⟨g, List.mem_cons_of_mem _ hg, hmem⟩
    · exact .inr fun g hg hmem => hf ⟨g, hg, hmem⟩
  have hvalue : ∀ v : Value, v.holds frames = true ∨ v.holds frames = false := fun v => Bool.eq_false_or_eq_true _
  exact ⟨fun _ _ q _ => hvalue q.2, fun _ _ v _ => hvalue v, fun _ _ q _ => hvalue q.2, fun _ _ _ _ f _ => hmethod f,
    fun _ _ q _ => hvalue q.2⟩

/-- The regime of all code. -/
abbrev any : Regime := apart [] (fun _ => False) id

theorem inv_any (hs : s.Sound) : any.Inv s := by
  have hnone : ∀ v : Value, v.holds [] = false := fun v => Value.holds_eq_false.2 fun _ _ => nofun
  refine inv_apart hs ?_ ⟨nofun, nofun⟩
  exact hs.values.mono (fun v _ => .inr (hnone v)) fun _ _ _ _ => .inr fun _ _ => nofun

/-- A run whose calls make no change to what is seen of the frames if they hold one. -/
private theorem agree_audited (frames : List FrameId) (view : Frame → β) (stop : Stop) (n : Nat) :
    (apart frames (·.holds frames = true) view).Agree
      (audited (·.holds frames) (fun s t => ∀ f ∈ frames, view (t.frame f) = view (s.frame f)) stop n)
      (audited (·.holds frames) (fun s t => ∀ f ∈ frames, view (t.frame f) = view (s.frame f)) stop n) := by
  refine agree_calling (fun n h s f args hf hargs => .ofInv fun hs => ?_) n
  split
  · -- the call itself is one of any code, and only its outcome counts
    next hholds =>
    have hglobals := hs.extra.1
    have hcall : any.Keeps any.Good s (Run.call (interp n) f args) (Run.call (interp n) f args) := by
      refine (agree_interp (R := any) (fun _ _ h => h.1) n).call (good_apart (soundIn_of_good hf hglobals).1 ?_)
        (fun h => h.1)
        fun v hv => good_apart (soundIn_of_good (hargs v hv) hglobals).1 ?_
      · exact .inr (Value.holds_eq_false.2 fun _ _ => nofun)
      · exact .inr (Value.holds_eq_false.2 fun _ _ => nofun)
    rintro hs m rfl
    obtain ⟨r, m', hresult, -, hinv, hafter, hr⟩ := hcall (inv_any (sound_of_inv hs).1) m rfl
    rcases Run.result_audit (fun s t => ∀ f ∈ frames, view (t.frame f) = view (s.frame f)) stop
      (Run.call (interp n) f args) m with ⟨hallowed, haudit⟩ | haudit
    · rw [hresult] at hallowed haudit
      have hsound := (sound_of_inv hinv).1
      have hsize : ∀ k ∈ frames, k.index < m'.store.frames.size :=
        fun k hk => Nat.lt_of_lt_of_le (hs.extra.2 k hk) hafter.later.frames
      refine ⟨r, m', haudit, haudit, inv_apart hsound (heldOnlyBy_holds _ _) ⟨hglobals, hsize⟩,
        ⟨hafter.later, hallowed⟩,
        fun v hv => good_apart (soundIn_of_good (hr v hv) nofun).1 (Bool.eq_false_or_eq_true _)⟩
    · exact ⟨.error stop, m, haudit, haudit, hs, .refl _, nofun⟩
  · next hholds => exact h.call hf (fun hexempt => hholds hexempt.1) hargs

end Regime

theorem Store.sound_initial : Store.initial.Sound :=
  (Regime.sound_of_inv (Regime.inv_initial (R := .any) ⟨nofun, nofun⟩)).1

/-- A store stays sound when a sound value is bound. -/
private theorem Store.Sound.putBinding {s : Store} (h : s.Sound) {v : Value} (hv : v.SoundIn s) (f : FrameId)
    (x : String) :
    (s.putBinding f x v).Sound := by
  have hgood : Regime.any.Good s v := Regime.good_apart hv (.inr (Value.holds_eq_false.2 fun _ _ => nofun))
  exact (Regime.sound_of_inv ((Regime.inv_any h).putBinding ⟨nofun, nofun⟩ id hgood)).1

/-- A store stays sound when a frame is made with sound values. -/
private theorem Store.Sound.pushFrame {s : Store} (h : s.Sound) {b : Bindings Value} (hb : b.All (Value.SoundIn s)) :
    Store.Sound { s with frames := s.frames.push ⟨b, none⟩ } := by
  have hgood : b.All (Regime.any.Good s) :=
    hb.mono fun v hv => Regime.good_apart hv (.inr (Value.holds_eq_false.2 fun _ _ => nofun))
  exact (Regime.sound_of_inv ((Regime.inv_any h).pushFrame ⟨nofun, nofun⟩ hgood fun _ h => by cases h)).1

/-! ### What was captured -/

/-- In the run that a step starts no refused value is called: stopping before such a call makes no difference. -/
def NeverCalls {α : Type} (refuses : Value → Bool) (n : Nat) (step : Interp → Run α) (m : Machine) : Prop :=
  ∀ stop, (step (guarded refuses stop n)).result m = (step (interp n)).result m

/-- In the run that a step starts all calls of suspect values make allowed changes only: stopping at another one makes
no difference. -/
def CallsOnly {α : Type} (suspects : Value → Bool) (allowed : Store → Store → Prop) (n : Nat) (step : Interp → Run α)
    (m : Machine) : Prop :=
  ∀ stop, (step (audited suspects allowed stop n)).result m = (step (interp n)).result m

/-- The value is the block.  No other block runs on the frames that it captured. -/
def BlockClosure.is (b : BlockClosure) : Value → Bool
  | .block c => c.env = b.env
  | _ => false

/-- Statements are executed, one list after the other, on chains without the frames, and the block is not called. -/
inductive BeforeCall (b : BlockClosure) (frames : List FrameId) : Machine → Machine → Prop where
  | start (m : Machine) : BeforeCall b frames m m
  | run {m m₁ m₂ : Machine} {env : Env} {l : List Stmt} {n : Nat} {r : Except Stop (Option Value)}
      (h : BeforeCall b frames m m₁) (henv : m₁.store.IsChain env) (hout : ∀ f ∈ env, f ∉ frames)
      (hnot : NeverCalls b.is n (Run.execAll · env l) m₁)
        (hrun : (Run.execAll (interp n) env l).result m₁ = (r, m₂)) :
      BeforeCall b frames m m₂

/-- As long as a block is not called, the frames that only it holds stay as they are, and only it holds them. -/
private theorem BeforeCall.kept {b : BlockClosure} {frames : List FrameId} {m m' : Machine}
    (h : BeforeCall b frames m m')
    (hm : m.store.Sound) (hheld : m.store.HeldOnlyBy (· = .block b) frames)
    (hframes : .globals ∉ frames ∧ ∀ f ∈ frames, f.index < m.store.frames.size) :
    (m'.store.Sound ∧ m'.store.HeldOnlyBy (· = .block b) frames ∧
      .globals ∉ frames ∧ ∀ f ∈ frames, f.index < m'.store.frames.size) ∧
      ∀ f ∈ frames, m'.store.frame f = m.store.frame f := by
  induction h with
  | start => exact ⟨⟨hm, hheld, hframes⟩, fun _ _ => rfl⟩
  | @run m₁ m₂ env l n r _ henv hout hnot hrun ih =>
    obtain ⟨⟨hm, hheld, hframes⟩, hsame⟩ := ih
    let R := Regime.apart frames (· = .block b) id
    have hagree : R.Agree (guarded b.is .unfinished n) (guarded b.is .unfinished n) :=
      Regime.agree_guarded (fun s v hv => by rw [hv.1]; exact decide_eq_true rfl) .unfinished n
    obtain ⟨p, hfollows⟩ : ∃ p, R.Follows m₁.store env p := Regime.follows_apart henv hout
    have hkeeps := hagree.execAll (l := l) hfollows fun _ _ => trivial
    obtain ⟨r', m', hresult, -, hinv, hafter, -⟩ := hkeeps (Regime.inv_apart hm hheld hframes) m₁ rfl
    obtain ⟨-, rfl⟩ := Prod.mk.inj ((hnot .unfinished).symm.trans hresult |>.symm.trans hrun)
    obtain ⟨hsound, hheld⟩ := Regime.sound_of_inv hinv
    exact ⟨⟨hsound, hheld, hinv.extra⟩, fun f hf => (hafter.stable f hf).trans (hsame f hf)⟩

/-- What a block runs on that does not hold a frame changes the frame only through what it calls. -/
private theorem frame_of_call {β : Type} {m : Machine} (hm : m.store.Sound) {b : BlockClosure} {f : FrameId}
    (view : Frame → β)
    (hb : m.store.IsChain b.env) (hf : f ∉ b.env) (hglobals : f ≠ .globals) (hlt : f.index < m.store.frames.size)
    {args : List Value} (hargs : ∀ v ∈ args, v.SoundIn m.store) {n : Nat}
    (hcalls : CallsOnly (·.holds [f]) (fun s t => ∀ k ∈ [f], view (t.frame k) = view (s.frame k)) n
      (Run.call · (.block b) args) m) :
    view (((Run.call (interp n) (.block b) args).result m).2.store.frame f) = view (m.store.frame f) := by
  let R := Regime.apart [f] (·.holds [f] = true) view
  have hholds : Value.holds [f] (.block b) = false :=
    Value.holds_eq_false.2 fun k hk hmem => hf (List.mem_singleton.1 hmem ▸ hk)
  have hinv : R.Inv m.store := Regime.inv_apart hm (Regime.heldOnlyBy_holds _ _)
    ⟨fun h => hglobals (List.mem_singleton.1 h).symm, List.forall_mem_singleton.2 hlt⟩
  have hkeeps :=
    (Regime.agree_audited [f] view .unfinished n).call (f := .block b) (Regime.good_apart hb (.inr hholds))
    (fun hexempt => absurd (hholds.symm.trans hexempt.1) nofun)
    fun v hv => Regime.good_apart (hargs v hv) (Bool.eq_false_or_eq_true _)
  obtain ⟨r, m', hresult, -, -, hafter, -⟩ := hkeeps hinv m rfl
  rw [← hcalls .unfinished, hresult]
  exact hafter.stable f (List.mem_singleton.2 rfl)

theorem result_blockLiteral (i : Interp) (env : Env) (returns : Option TypeExpr) (params : List Param)
    (body : List Stmt) (m : Machine) :
    (Run.evalExpr i env (.block returns params body)).result m =
      (.ok (.block ⟨params, body, ((Store.snapshot (some .globals) env).run m.store).1⟩),
        { m with store := ((Store.snapshot (some .globals) env).run m.store).2 }) := rfl

/-- A block literal captures copies of the frames around it, and the built-in names.  Until the block is called,
nothing changes the copies, so that it will find every captured variable with the value that it had.  Calling the
block changes a binding of the frames it was made in only through a function, a method or a block that holds the
frame. -/
theorem captured_frames_are_apart {m : Machine} (hm : m.store.Sound) {frames : List FrameId}
    (hframes : ∀ f ∈ frames, f ≠ .globals ∧ f.index < m.store.frames.size ∧ (m.store.frame f).receiver = none)
    (returns : Option TypeExpr) (params : List Param) (body : List Stmt) (n : Nat) :
    ∃ copies store,
      ((interp (n + 1)).eval (frames ++ [.globals]) (.block returns params body)).result m =
        (.ok (.block ⟨params, body, copies ++ [.globals]⟩), { m with store := store }) ∧
      m.store.Copied frames copies store ∧
      (∀ m', BeforeCall ⟨params, body, copies ++ [.globals]⟩ copies { m with store := store } m' →
        (∀ c ∈ copies, m'.store.frame c = store.frame c) ∧
        ∀ x, (∃ f ∈ frames, (m.store.frame f).bindings.has x = true) → ∃ v,
          m.store.lookup? (frames ++ [.globals]) x = some (.value v) ∧
          m'.store.lookup? (copies ++ [.globals]) x = some (.value v)) ∧
      ∀ m' : Machine, m'.store.Sound → store.frames.size ≤ m'.store.frames.size →
        ∀ args : List Value, (∀ v ∈ args, v.SoundIn m'.store) → ∀ (k : Nat) (f : FrameId) (x : String), f ∈ frames →
          CallsOnly (·.holds [f])
            (fun s t => ∀ g ∈ [f], (t.frame g).bindings.get? x = (s.frame g).bindings.get? x) k
            (Run.call · (.block ⟨params, body, copies ++ [.globals]⟩) args) m' →
          (((Run.call (interp k) (.block ⟨params, body, copies ++ [.globals]⟩) args).result m').2.store.frame
            f).bindings.get? x = (m'.store.frame f).bindings.get? x := by
  obtain ⟨copies, store, hrun, hcopied⟩ := Store.run_snapshot fun f hf => ⟨(hframes f hf).1, (hframes f hf).2.1⟩
  have hglobals : FrameId.globals ∉ copies :=
    fun h => Nat.not_lt_of_le ((hcopied.new _).1 h).1 hm.globals
  have hnew : ∀ c ∈ copies, c.index < store.frames.size := fun c hc => ((hcopied.new c).1 hc).2
  refine ⟨copies, store, ?_, hcopied, fun m' hm' => ?_, fun m' hm' hsize args hargs k f x hf hcalls => ?_⟩
  · rw [interp, evaluators, result_blockLiteral, hrun]
  · obtain ⟨-, hsame⟩ := hm'.kept (hcopied.sound hm) (hcopied.heldOnlyBy hm _) ⟨hglobals, hnew⟩
    exact ⟨hsame, fun x hx => hcopied.lookup? hsame (fun f hf => (hframes f hf).2.2) hx _ _⟩
  · obtain ⟨hne, hlt, -⟩ := hframes f hf
    have hchain : m'.store.IsChain (copies ++ [.globals]) := by
      refine ⟨copies, rfl, fun c hc => ⟨fun h => hglobals (h ▸ hc), Nat.lt_of_lt_of_le (hnew c hc) hsize⟩⟩
    have hout : f ∉ copies ++ [.globals] := by
      intro hmem
      rcases List.mem_append.1 hmem with hc | hc
      · exact Nat.not_lt_of_le ((hcopied.new f).1 hc).1 hlt
      · exact hne (List.mem_singleton.1 hc)
    have hlt' := Nat.lt_of_lt_of_le hlt (Nat.le_trans hcopied.size hsize)
    exact frame_of_call hm' (fun k => k.bindings.get? x) hchain hout hne hlt' hargs hcalls

/-- A reference to a name that many scopes out. -/
def Ref.out (x : String) (depth : Nat) : Ref :=
  ⟨⟨x, ⟨1, 1⟩⟩, some depth⟩

/-- The body of the block literal `^{ me(me, YES); }`. -/
def toggleLater : List Stmt :=
  [.expr (.call (.variable (.out "me" 1)) [.variable (.out "me" 1), .literal (.bool true)])]

/-- The block literal `^(id me, BOOL again) { if (again) n = YES; else ^{ me(me, YES); }(); }`. -/
def toggleLiteral : Expr :=
  .block none [⟨.missing, ⟨"me", ⟨1, 1⟩⟩⟩, ⟨.missing, ⟨"again", ⟨1, 1⟩⟩⟩]
    [.branch (.variable (.out "again" 0)) (.expr (.assign (.out "n" 1) .set ⟨1, 1⟩ (.literal (.bool true))))
      (some (.expr (.call (.block none [] toggleLater) [])))]

/-- The program `BOOL n = NO; id toggle = ^(id me, BOOL again) { ... };`. -/
def toggleProgram : List Stmt :=
  [.var ⟨.missing, ⟨"n", ⟨1, 1⟩⟩, some (.literal (.bool false))⟩,
    .var ⟨.missing, ⟨"toggle", ⟨1, 1⟩⟩, some toggleLiteral⟩]

/-- What the block literal stands for in this program: it has captured a copy of the program's frame. -/
def toggle : BlockClosure :=
  match toggleLiteral with
  | .block _ params body => ⟨params, body, [⟨2⟩, .globals]⟩
  | _ => ⟨[], [], [.globals]⟩

/-- The program has been run, and `toggle(toggle, NO)` has made its frame. -/
def toggling (clock : Nat → Float) : Machine :=
  let s := Store.initial.putBinding ⟨1⟩ "n" (.bool false)
  let s := { s with frames := s.frames.push ⟨[("n", .bool false)], none⟩ }
  let s := s.putBinding ⟨1⟩ "toggle" (.block toggle)
  let s := { s with frames := s.frames.push ⟨[("me", .block toggle), ("again", .bool false)], none⟩ }
  { Machine.initial [] clock 0 with store := s }

private theorem sound_toggling (clock : Nat → Float) : (toggling clock).store.Sound := by
  have hbool : Value.SoundIn Store.initial (.bool false) := trivial
  have hcopy := (Store.sound_initial.putBinding hbool ⟨1⟩ "n").pushFrame
    (b := [("n", .bool false)]) (List.forall_mem_singleton.2 trivial)
  -- from here on the frame that the block has captured is there
  have hblock : ∀ s : Store, 2 < s.frames.size → Value.SoundIn s (.block toggle) :=
    fun s hs => ⟨[⟨2⟩], rfl, List.forall_mem_singleton.2 ⟨nofun, hs⟩⟩
  refine (hcopy.putBinding (hblock _ (by decide)) ⟨1⟩ "toggle").pushFrame ?_
  exact List.forall_mem_cons.2 ⟨hblock _ (by decide), List.forall_mem_singleton.2 trivial⟩

/-- The value is a function or a bound method. -/
def Value.isFunction : Value → Bool
  | .function _ => true
  | _ => false

/-- The block literal of the body has captured copies of both frames. -/
def captured (clock : Nat → Float) : Machine :=
  let m := toggling clock
  let frames := (m.store.frames.push ⟨[("n", .bool false)], none⟩).push
    ⟨[("me", .block toggle), ("again", .bool false)], none⟩
  { m with store := { m.store with frames := frames } }

/-- The block has been called. -/
def toggled (clock : Nat → Float) : Machine :=
  let m := captured clock
  let frames := (m.store.frames.push ⟨[], none⟩).push ⟨[("me", .block toggle), ("again", .bool true)], none⟩
  { m with store := Store.putBinding { m.store with frames := frames } ⟨2⟩ "n" (.bool true) }

private theorem result_call (clock : Nat → Float) :
    (Run.call (interp 9) (.block ⟨[], toggleLater, [⟨5⟩, ⟨4⟩, .globals]⟩) []).result (captured clock) =
      (.ok .null, toggled clock) := rfl

private theorem result_call_guarded (clock : Nat → Float) (stop : Stop) :
    (Run.call (guarded Value.isFunction stop 9) (.block ⟨[], toggleLater, [⟨5⟩, ⟨4⟩, .globals]⟩) []).result
      (captured clock) = (.ok .null, toggled clock) := rfl

/-- A block can change a binding of the frames it was made in through another block.  No function and no method is
called here. -/
theorem captured_frames_change_through_block :
    let clock : Nat → Float := fun _ => 0
    let b : BlockClosure := ⟨[], toggleLater, [⟨5⟩, ⟨4⟩, .globals]⟩
    -- a program leads to the frames that the block literal is evaluated on
    (do
      Run.program (interp 9) Env.top toggleProgram
      Run.onStore (Store.newFrame ⟨Run.bindParams toggle.params [.block toggle, .bool false] [], none⟩)).result
        (Machine.initial [] clock 0) = (.ok ⟨3⟩, toggling clock) ∧
      ((interp 9).eval [⟨3⟩, ⟨2⟩, .globals] (.block none [] toggleLater)).result (toggling clock) =
        (.ok (.block b), captured clock) ∧
      -- the call changes the second of them
      NeverCalls Value.isFunction 9 (Run.call · (.block b) []) (captured clock) ∧
      ((captured clock).store.frame ⟨2⟩).bindings.get? "n" = some (.bool false) ∧
      (((Run.call (interp 9) (.block b) []).result (captured clock)).2.store.frame ⟨2⟩).bindings.get? "n" =
        some (.bool true) := by
  intro clock b
  refine ⟨rfl, rfl, fun stop => ?_, rfl, ?_⟩
  · exact (result_call_guarded clock stop).trans (result_call clock).symm
  · rw [result_call]
    rfl

/-- The block literal in the middle of that program. -/
theorem captured_frames_are_apart_while_toggling :
    let m := toggling fun _ => 0
    let frames : List FrameId := [⟨3⟩, ⟨2⟩]
    m.store.Sound ∧
      (∀ f ∈ frames, f ≠ .globals ∧ f.index < m.store.frames.size ∧ (m.store.frame f).receiver = none) ∧
      ∃ copies store,
        ((interp 9).eval (frames ++ [.globals]) (.block none [] toggleLater)).result m =
          (.ok (.block ⟨[], toggleLater, copies ++ [.globals]⟩), { m with store := store }) ∧
        m.store.Copied frames copies store := by
  intro m frames
  have hframes : ∀ f ∈ frames, f ≠ .globals ∧ f.index < m.store.frames.size ∧ (m.store.frame f).receiver = none :=
    List.forall_mem_cons.2 ⟨⟨nofun, by decide, rfl⟩, List.forall_mem_singleton.2 ⟨nofun, by decide, rfl⟩⟩
  obtain ⟨copies, store, hresult, hcopied, -⟩ :=
    captured_frames_are_apart (sound_toggling _) hframes none [] toggleLater 8
  exact ⟨sound_toggling _, hframes, copies, store, hresult, hcopied⟩

end ObjScript
