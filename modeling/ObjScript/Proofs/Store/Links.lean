import Mathlib.Data.List.TakeWhile
import Mathlib.Logic.Function.Iterate
import ObjScript.Proofs.Store.Sound

/-!
# Links

A frame is linked to the frame around it, and a class to its superclass.  What a search goes through is then a walk
along the links (`Walk`).  If each link leads to a smaller number, there is one walk from every element, it is no
longer than the number of its first element allows, and so a search along the links ends (`Walk.search`,
`Walk.gather`).  For the searches of a store this is `Store.SearchesEnd`.
-/

namespace ObjScript

/-! ### Walks -/

/-- Each element is followed by the one that its link leads to; the link of the last one leads nowhere. -/
inductive Walk {α : Type} (next : α → Option α) : List α → Prop where
  | nil : Walk next []
  | cons {a : α} {l : List α} (h : next a = l.head?) (hl : Walk next l) : Walk next (a :: l)

/-- Goes along the links from an element until the test answers, for at most `n` turns. -/
def search {α β : Type} (next : α → Option α) (test : α → Option β) : Nat → Option α → Option (Option β)
  | _, none => some none
  | 0, some _ => none
  | n + 1, some a =>
    match test a with
    | some b => some (some b)
    | none => search next test n (next a)

/-- Goes along the links from an element and collects what comes before the stop, for at most `n` turns. -/
def gather {α : Type} (next : α → Option α) (stop : α → Bool) : Nat → Option α → Option (List α)
  | _, none => some []
  | 0, some _ => none
  | n + 1, some a => if stop a then some [] else (gather next stop n (next a)).map (a :: ·)

section Walk

variable {α β : Type} {next next' : α → Option α} {index : α → Nat} {a : α} {k l : List α} {n : Nat}

theorem Walk.congr (h : Walk next l) (hsame : ∀ a ∈ l, next' a = next a) : Walk next' l := by
  induction h with
  | nil => exact .nil
  | cons ha _ ih =>
    obtain ⟨hsame, hrest⟩ := List.forall_mem_cons.1 hsame
    exact .cons (hsame.trans ha) (ih hrest)

/-- There is one walk from an element. -/
private theorem Walk.eq_of_head (hk : Walk next k) (hl : Walk next l) (h : k.head? = l.head?) : k = l := by
  induction hk generalizing l with
  | nil =>
    cases hl with
    | nil => rfl
    | cons => simp at h
  | cons ha _ ih =>
    cases hl with
    | nil => simp at h
    | cons hb hl =>
      obtain rfl := Option.some.inj h
      rw [ih hl (ha.symm.trans hb)]

/-- A walk along links to smaller numbers is no longer than they allow. -/
private theorem Walk.length_le (hdown : ∀ a b, next a = some b → index b < index a) (h : Walk next (a :: l)) :
    (a :: l).length ≤ index a + 1 := by
  induction l generalizing a with
  | nil => simp
  | cons b l ih =>
    cases h with
    | cons ha hl =>
      have hlt := hdown a b ha
      have hlength := ih hl
      simp only [List.length_cons] at hlength ⊢
      omega

/-- Along links to smaller numbers there is a walk from every element. -/
private theorem exists_walk (hdown : ∀ a b, next a = some b → index b < index a) (a : α) :
    ∃ l, Walk next (a :: l) := by
  induction hn : index a using Nat.strongRecOn generalizing a with
  | _ n ih =>
    cases ha : next a with
    | none => exact ⟨[], .cons ha .nil⟩
    | some b =>
      obtain ⟨l, hl⟩ := ih (index b) (hn ▸ hdown a b ha) b rfl
      exact ⟨b :: l, .cons ha hl⟩

/-- A search with as many turns as the walk is long ends with the first answer along the walk. -/
private theorem Walk.search (h : Walk next l) (test : α → Option β) (hn : l.length ≤ n) :
    search next test n l.head? = some (l.findSome? test) := by
  induction h generalizing n with
  | nil => cases n <;> rfl
  | @cons a l ha _ ih =>
    obtain ⟨n, rfl⟩ : ∃ k, n = k + 1 := ⟨n - 1, by simp only [List.length_cons] at hn; omega⟩
    simp only [List.head?_cons, ObjScript.search, List.findSome?_cons]
    cases test a with
    | some b => rfl
    | none =>
      rw [ha]
      exact ih (by simpa using hn)

/-- With as many turns as the walk is long all of it is collected, as far as the stop. -/
private theorem Walk.gather (h : Walk next l) (stop : α → Bool) (hn : l.length ≤ n) :
    gather next stop n l.head? = some (l.takeWhile fun a => !stop a) := by
  induction h generalizing n with
  | nil => cases n <;> rfl
  | @cons a l ha _ ih =>
    obtain ⟨n, rfl⟩ : ∃ k, n = k + 1 := ⟨n - 1, by simp only [List.length_cons] at hn; omega⟩
    simp only [List.head?_cons, ObjScript.gather, List.takeWhile_cons]
    cases stop a with
    | true => rfl
    | false =>
      have hrest := ih (n := n) (by simpa using hn)
      rw [ha, hrest]
      rfl

/-- Going outward in a chain of frames is going along the links, but no further than to the outermost frame. -/
private theorem Walk.ancestor {outer : FrameId → Option FrameId} {f : FrameId} {env : Env} (h : Walk outer (f :: env))
    (d : Nat) : (Env.ancestor (f :: env) d).head? = some ((fun f => (outer f).getD f)^[d] f) := by
  induction d generalizing f env with
  | zero => rfl
  | succ d ih =>
    obtain _ | ⟨hf, henv⟩ := h
    cases env with
    | nil =>
      have hstay : ∀ d, (fun f => (outer f).getD f)^[d] f = f := Function.iterate_fixed (by simp [hf])
      rw [hstay]
      rfl
    | cons g env =>
      have hnext : (outer f).getD f = g := by simp [hf]
      rw [Function.iterate_succ_apply, hnext]
      exact ih henv

end Walk

/-! ### The links of a store -/

/-- The frame around each frame, and the superclass of each class. -/
structure Links where
  outer : FrameId → Option FrameId
  above : ClassId → Option ClassId

/-- Each link leads to a frame or to a class that was made before. -/
structure Links.Earlier (L : Links) : Prop where
  outer : ∀ f g, L.outer f = some g → g.index < f.index
  above : ∀ c d, L.above c = some d → d.index < c.index

/-- The frames that a method runs on once it is bound, without the one that binds it. -/
def Method.chain : Method → Env
  | .closure f => f.env
  | .alloc => []

namespace Store

/-- The chains of the store and the lines of its classes go along the links. -/
structure Linked (s : Store) (L : Links) (env : Env) : Prop where
  env : Walk L.outer env
  values : s.Holds (fun v => Walk L.outer v.chain) fun m => Walk L.outer m.chain
  lines : ∀ c : ClassId, c.index < s.classes.size → Walk L.above (s.line c)

/-- From a frame or a class there is one walk, and with more turns than were made before it each search along the
links ends with what the store finds on the walk: the nearest owner of a name and what it makes of it, the frame that
lies some steps outward, the frames before a given one, the nearest method and the whole line of a class. -/
structure SearchesEnd (s : Store) (L : Links) : Prop where
  chain : ∀ f, ∃ outer, Walk L.outer (f :: outer) ∧ outer.length ≤ f.index ∧
    ∀ l, Walk L.outer (f :: l) → l = outer
  get : ∀ f outer n x, Walk L.outer (f :: outer) → f.index < n →
    search L.outer (s.own? · x) n (some f) = some (s.lookup? (f :: outer) x)
  owner : ∀ f outer n x, Walk L.outer (f :: outer) → f.index < n →
    search L.outer (fun g => if s.owns g x then some g else none) n (some f) =
      some ((f :: outer).find? (s.owns · x))
  ancestor : ∀ f outer d, Walk L.outer (f :: outer) →
    (Env.ancestor (f :: outer) d).head? = some ((fun g => (L.outer g).getD g)^[d] f)
  snapshot : ∀ f outer n stop, Walk L.outer (f :: outer) → f.index < n →
    gather L.outer (· = stop) n (some f) = some ((f :: outer).takeWhile fun g => !decide (g = stop))
  method : ∀ (c : ClassId) n visible x, c.index < s.classes.size → c.index < n →
    search L.above (fun d => (((s.classOf d).methods.get? x).filter visible).map (⟨d, ·, L.above d⟩)) n (some c) =
      some (s.findMethod? visible x (s.line c))
  properties : ∀ (c : ClassId) n, c.index < s.classes.size → c.index < n →
    (gather L.above (fun _ => false) n (some c)).map s.initialProperties = some (s.initialProperties (s.line c))

private theorem findSome?_owns (s : Store) (x : String) (env : Env) :
    env.findSome? (fun f => if s.owns f x then some f else none) = env.find? (s.owns · x) := by
  induction env with
  | nil => rfl
  | cons f outer ih =>
    rw [List.findSome?_cons, List.find?_cons, ih]
    cases s.owns f x <;> rfl

/-- The nearest method of a walk along the superclasses. -/
private theorem findMethod?_of_walk {s : Store} {above : ClassId → Option ClassId} {line : List ClassId}
    (h : Walk above line) (visible : Method → Bool) (x : String) :
    line.findSome? (fun d => (((s.classOf d).methods.get? x).filter visible).map (⟨d, ·, above d⟩)) =
      s.findMethod? visible x line := by
  induction h with
  | nil => rfl
  | @cons c line hc _ ih =>
    rw [List.findSome?_cons, findMethod?, ih, hc]
    cases (s.classOf c).methods.get? x with
    | none => rfl
    | some m => cases hv : visible m <;> simp [Option.filter, hv]

/-- Where the lines of the classes go along links that lead to what was made before, all searches end. -/
theorem searchesEnd_of_lines {s : Store} {L : Links} (hL : L.Earlier)
    (hlines : ∀ c : ClassId, c.index < s.classes.size → Walk L.above (s.line c)) : s.SearchesEnd L := by
  have henough : ∀ {f : FrameId} {outer : Env} {n : Nat}, Walk L.outer (f :: outer) → f.index < n →
      (f :: outer).length ≤ n := by
    intro f outer n h hn
    have hlength := h.length_le hL.outer
    omega
  have hlong : ∀ {c : ClassId} {n : Nat}, c.index < s.classes.size → c.index < n → (s.line c).length ≤ n := by
    intro c n hc hn
    have hlength : (s.line c).length ≤ c.index + 1 := (hlines c hc).length_le hL.above
    omega
  constructor
  case chain =>
    intro f
    obtain ⟨outer, h⟩ := exists_walk hL.outer f
    have hlength := h.length_le hL.outer
    refine ⟨outer, h, by simpa using hlength, fun l hl => ?_⟩
    exact List.tail_eq_of_cons_eq (hl.eq_of_head h rfl)
  case get =>
    intro f outer n x h hn
    exact h.search (s.own? · x) (henough h hn)
  case owner =>
    intro f outer n x h hn
    rw [← findSome?_owns]
    exact h.search _ (henough h hn)
  case ancestor => exact fun f outer d h => h.ancestor d
  case snapshot =>
    intro f outer n stop h hn
    exact h.gather _ (henough h hn)
  case method =>
    intro c n visible x hc hn
    rw [← findMethod?_of_walk (hlines c hc)]
    exact (hlines c hc).search _ (hlong hc hn)
  case properties =>
    intro c n hc hn
    have hline := (hlines c hc).gather (fun _ => false) (hlong hc hn)
    have hall : (s.line c).takeWhile (fun _ => !false) = s.line c := List.takeWhile_eq_self_iff.2 (by simp)
    rw [hall] at hline
    exact congrArg (Option.map s.initialProperties) hline

end Store

end ObjScript
