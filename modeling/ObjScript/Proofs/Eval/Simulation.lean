import ObjScript.Proofs.Eval.Alignment

/-!
# Simulation

`Sim π f Q σ t u` compares a step that keeps track with a step that does not.  Started from a state in which
the invariant holds, and from the same machine with the depths of the plan, both come to the same result,
`f` of the one being the other; the invariant holds again, frames have kept their scopes and names, and a
result has the property `Q`.
-/

namespace ObjScript

variable {α β γ δ : Type} {π : Plan} {σ τ : Tracked}

/-- The result of a step that keeps track, and the state after it. -/
def Track.result (t : Track α) (σ : Tracked) : Except Stop α × Tracked :=
  t.run.run σ

theorem Track.result_bind (t : Track α) (k : α → Track β) (σ : Tracked) :
    (t >>= k).result σ = match t.result σ with
      | (.ok a, σ') => (k a).result σ'
      | (.error e, σ') => (.error e, σ') := by
  change ((t.run.run σ).1 |> fun r => ((ExceptT.bindCont k r).run (t.run.run σ).2)) = _
  unfold Track.result
  generalize t.run.run σ = x
  obtain ⟨r, σ'⟩ := x
  cases r <;> rfl

namespace Plan

private theorem Runnable.mono {params : List Param} {body : List Stmt} {env : Env} (h : π.Runnable σ params body env)
    (hg : σ.Grows τ) : π.Runnable τ params body env := by
  obtain ⟨stmts, s, p, hbody, hvisits, hchain⟩ := h
  exact ⟨stmts, s, p, hbody, hvisits, hchain.mono hg fun _ hx => hx⟩

theorem Good.mono {v : Value} (h : π.Good σ v) (hg : σ.Grows τ) : π.Good τ v := by
  cases v with
  | function f => exact Runnable.mono h hg
  | block b => exact Runnable.mono h hg
  | _ => trivial

theorem GoodMethod.mono {m : Method} (h : π.GoodMethod σ m) (hg : σ.Grows τ) : π.GoodMethod τ m := by
  cases m with
  | alloc => trivial
  | closure f =>
    obtain ⟨hforgets, stmts, s, names, outer, p, hbody, hvisits, hstack, hchain⟩ := h
    exact ⟨hforgets, stmts, s, names, outer, p, hbody, hvisits, hstack, hchain.mono hg fun _ hx => hx⟩

theorem plain_good (π : Plan) (σ : Tracked) : HoldsOfPlain (π.Good σ) := by
  intro v hv
  cases v with
  | function _ | block _ => exact hv.elim
  | _ => trivial

end Plan

/-- The two steps come to the same result, and the invariant is kept. -/
def Sim (π : Plan) (f : α → β) (Q : Tracked → α → Prop) (σ : Tracked) (t : Track α) (u : Run β) : Prop :=
  π.Inv σ → ∃ r σ', t.result σ = (r, σ') ∧
    u.result (σ.machine.withDepths π.depth) = (r.map f, σ'.machine.withDepths π.depth) ∧
    π.Inv σ' ∧ σ.Grows σ' ∧ ∀ a, r = .ok a → Q σ' a

namespace Sim

variable {f : α → β} {h : γ → δ} {Q Q' : Tracked → α → Prop} {R : Tracked → γ → Prop}

theorem pure {a : α} (ha : Q σ a) : Sim π f Q σ (pure a) (pure (f a)) :=
  fun hσ => ⟨.ok a, σ, rfl, rfl, hσ, .refl σ, fun _ hb => Except.ok.inj hb ▸ ha⟩

theorem throw (e : Stop) : Sim π f Q σ (throw e) (throw e) :=
  fun hσ => ⟨.error e, σ, rfl, rfl, hσ, .refl σ, nofun⟩

theorem weaken {t : Track α} {u : Run β} (ht : Sim π f Q σ t u)
    (hQ : ∀ τ a, σ.Grows τ → Q τ a → Q' τ a) : Sim π f Q' σ t u := by
  intro hσ
  obtain ⟨r, σ', h₁, h₂, hσ', hg, hr⟩ := ht hσ
  exact ⟨r, σ', h₁, h₂, hσ', hg, fun a ha => hQ σ' a hg (hr a ha)⟩

theorem bind {t : Track α} {u : Run β} {k : α → Track γ} {l : β → Run δ} (ht : Sim π f Q σ t u)
    (hk : ∀ τ a, σ.Grows τ → Q τ a → Sim π h R τ (k a) (l (f a))) : Sim π h R σ (t >>= k) (u >>= l) := by
  intro hσ
  obtain ⟨r, σ₁, ht₁, hu₁, hσ₁, hg₁, hr⟩ := ht hσ
  rw [Track.result_bind, Run.result_bind, ht₁, hu₁]
  cases r with
  | error e => exact ⟨.error e, σ₁, rfl, rfl, hσ₁, hg₁, nofun⟩
  | ok a =>
    obtain ⟨r, σ₂, ht₂, hu₂, hσ₂, hg₂, hr₂⟩ := hk σ₁ a hg₁ (hr a rfl) hσ₁
    exact ⟨r, σ₂, ht₂, hu₂, hσ₂, hg₁.trans hg₂, hr₂⟩

/-- The invariant may be used for a step. -/
theorem ofInv {t : Track α} {u : Run β} (ht : π.Inv σ → Sim π f Q σ t u) : Sim π f Q σ t u :=
  fun hσ => ht hσ hσ

/-- Only the results on the two machines count. -/
theorem congr {t t' : Track α} {u u' : Run β} (h : Sim π f Q σ t' u') (ht : t.result σ = t'.result σ)
    (hu : u.result (σ.machine.withDepths π.depth) = u'.result (σ.machine.withDepths π.depth)) :
    Sim π f Q σ t u := by
  unfold Sim
  rw [ht, hu]
  exact h

end Sim

/-- The invariant speaks about the frames, the values and the notes only. -/
theorem Plan.Inv.ofStore (hσ : π.Inv σ) {τ : Tracked} (hg : σ.Grows τ) (ho : τ.origins = σ.origins)
    (hframes : τ.machine.store.frames = σ.machine.store.frames)
    (hstore : τ.machine.store.Holds (π.Good σ) (π.GoodMethod σ))
    (hs : ∀ g ∈ τ.sightings, ∃ v frames, π.known v ∧ Aligned σ.origins g v frames) : π.Inv τ := by
  have hframe : ∀ f, τ.machine.store.frame f = σ.machine.store.frame f := by
    intro f
    rw [Store.frame, Store.frame, hframes]
  refine ⟨?_, ?_, ?_, hstore.mono (fun _ hv => hv.mono hg) (fun _ hm => hm.mono hg), ?_, ?_, ?_⟩
  · rw [ho, hframes, hσ.size]
  · rw [ho, hσ.builtins]
  · rw [ho, hσ.program]
  · rw [ho]
    exact hs
  · intro hforgets f
    rw [hframe, hσ.receiver hforgets]
  · intro hforgets f x hf hx
    rw [ho]
    rw [Tracked.Binds, hframe] at hx
    exact hσ.names hforgets f x hf hx

/-- A state with the same frames and scopes has grown. -/
theorem Tracked.Grows.ofFrames (ho : τ.origins = σ.origins)
    (hframes : τ.machine.store.frames = σ.machine.store.frames) : σ.Grows τ := by
  refine ⟨fun hi => by rw [ho, hi], fun {f x} hx => ?_⟩
  rw [Tracked.Binds, Store.frame, hframes]
  exact hx

/-- A tame step does not concern the notes. -/
theorem Sim.plain {f : α → β} {Q : α → Prop} {t : Run α} {u : Run β}
    (ht : Run.Tame (π.Good σ) (π.GoodMethod σ) π.depth f Q t u) :
    Sim π f (fun _ => Q) σ (Track.plain t) u := by
  intro hσ
  obtain ⟨r, m, ht, hu, hframes, hstore, hr⟩ := ht σ.machine hσ.store
  let τ : Tracked := { σ with machine := m }
  have hg : σ.Grows τ := .ofFrames rfl hframes
  have hresult : (Track.plain t).result σ = ((t.result σ.machine).1, { σ with machine := (t.result σ.machine).2 }) :=
    rfl
  rw [ht] at hresult
  exact ⟨r, τ, hresult, hu, hσ.ofStore hg rfl hframes hstore hσ.sightings, hg, hr⟩

/-- A tame step that gives a value. -/
theorem Sim.plainValue {t u : Run Value}
    (ht : Run.Tame (π.Good σ) (π.GoodMethod σ) π.depth (Value.withDepths π.depth) (π.Good σ) t u) :
    Sim π (Value.withDepths π.depth) π.Good σ (Track.plain t) u :=
  (Sim.plain ht).weaken fun _ _ hg hv => hv.mono hg

/-- A reference is noted. -/
theorem Sim.sight {f : α → β} {Q : Tracked → α → Prop} {k : Track α} {u : Run β} {env : Env} {e : Expr} {v : Visit}
    {frames : Env} (hv : π.known v) (ha : Aligned σ.origins ⟨env, e⟩ v frames)
    (hk : ∀ τ, σ.Grows τ → Sim π f Q τ k u) : Sim π f Q σ (Track.sight env e >>= fun _ => k) u := by
  intro hσ
  let τ : Tracked := { σ with sightings := ⟨env, e⟩ :: σ.sightings }
  have hg : σ.Grows τ := .ofFrames rfl rfl
  have hτ : π.Inv τ := hσ.ofStore hg rfl rfl hσ.store
    (List.forall_mem_cons.2 ⟨⟨v, frames, hv, ha⟩, hσ.sightings⟩)
  obtain ⟨r, σ', hk', hu, hσ', hg', hr⟩ := hk τ hg hτ
  exact ⟨r, σ', hk', hu, hσ', hg.trans hg', hr⟩

end ObjScript
