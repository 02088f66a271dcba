import Mathlib.Data.Finset.Card
import Mathlib.Data.Set.Function
import Mathlib.Logic.Relation
import Mathlib.Tactic

/-!
# Copying a graph of objects

An object has contents: under each key there may be a plain value or a reference to an object.
A copier keeps a memo, the copy of each object that it has met.

* `CopyOf`: contents that are copied as far as the memo goes. A memo that grows keeps it
  (`CopyOf.mono`).
* `Copied.iso`: a memo that has the root, and nothing but reached objects, each of them copied,
  is an isomorphism.
* `unmet`: how many objects the memo lacks, the measure of a copier.
-/

set_option autoImplicit false

universe u v w

namespace ObjectGraph

/-- What an object has under a key. -/
inductive Value (σ : Type u) (α : Type v)
  | plain (a : σ)
  | ref (x : α)
  deriving DecidableEq

variable {σ : Type u} {κ : Type w} {α β : Type v}
  {g : α → κ → Option (Value σ α)} {g' : β → κ → Option (Value σ β)}
  {e : κ → Option (Value σ α)} {e' : κ → Option (Value σ β)} {d d' d'' : α → Option β} {t x y : α} {c : β}

/-- The same value, with another reference. -/
def Value.map (f : α → β) : Value σ α → Value σ β
  | .plain a => .plain a
  | .ref x => .ref (f x)

/-- `x` refers to `y`. -/
def Edge (g : α → κ → Option (Value σ α)) (x y : α) : Prop := ∃ k, g x k = some (.ref y)

/-- There is a path of references. -/
def Reachable (g : α → κ → Option (Value σ α)) : α → α → Prop := Relation.ReflTransGen (Edge g)

/-! ## Memos -/

/-- A value and its copy. -/
inductive Copies (d : α → Option β) : Value σ α → Value σ β → Prop
  | plain (a : σ) : Copies d (.plain a) (.plain a)
  | ref {x : α} {c : β} (h : d x = some c) : Copies d (.ref x) (.ref c)

/-- Contents and their copy. -/
def CopyOf (d : α → Option β) (e : κ → Option (Value σ α)) (e' : κ → Option (Value σ β)) : Prop :=
  ∀ k, Option.Rel (Copies d) (e k) (e' k)

/-- The memo keeps what it has. -/
def Grows (d d' : α → Option β) : Prop := ∀ x c, d x = some c → d' x = some c

theorem Grows.refl (d : α → Option β) : Grows d d := fun _ _ h => h

theorem Grows.trans (h : Grows d d') (h' : Grows d' d'') : Grows d d'' := fun x c hx => h' x c (h x c hx)

theorem grows_update [DecidableEq α] (hx : d x = none) (c : β) : Grows d (Function.update d x (some c)) := by
  intro y c' hy
  have hyx : y ≠ x := by
    rintro rfl
    rw [hx] at hy
    cases hy
  rwa [Function.update_of_ne hyx]

/-- What the memo has after one more object. -/
theorem update_eq_some [DecidableEq α] (hx : d x = none) {c' : β} :
    Function.update d x (some c) y = some c' ↔ (y = x ∧ c' = c) ∨ d y = some c' := by
  by_cases hyx : y = x
  · subst hyx
    rw [Function.update_self, hx, Option.some_inj]
    constructor
    · rintro rfl
      exact .inl ⟨rfl, rfl⟩
    · rintro (⟨-, rfl⟩ | h)
      · rfl
      · cases h
  · rw [Function.update_of_ne hyx]
    simp [hyx]

theorem Copies.mono (h : Grows d d') {a : Value σ α} {b : Value σ β} (hc : Copies d a b) : Copies d' a b := by
  cases hc with
  | plain a => exact .plain a
  | ref hx => exact .ref (h _ _ hx)

theorem rel_mono {r r' : Value σ α → Value σ β → Prop} (h : ∀ a b, r a b → r' a b) {a : Option (Value σ α)}
    {b : Option (Value σ β)} (hab : Option.Rel r a b) : Option.Rel r' a b := by
  cases hab with
  | some hr => exact .some (h _ _ hr)
  | none => exact .none

theorem CopyOf.mono (h : Grows d d') (hc : CopyOf d e e') : CopyOf d' e e' :=
  fun k => rel_mono (fun _ _ => Copies.mono h) (hc k)

/-- A copied reference is in the memo. -/
theorem CopyOf.ref (hc : CopyOf d e e') {k : κ} (hk : e k = some (.ref y)) : ∃ c, d y = some c := by
  have hrel := hc k
  rw [hk] at hrel
  generalize e' k = b at hrel
  rcases hrel with ⟨hab⟩
  cases hab with
  | ref h => exact ⟨_, h⟩

/-! ## Complete memos -/

/-- Every object that was reached is copied, each to an object of its own. -/
structure Copied (g : α → κ → Option (Value σ α)) (g' : β → κ → Option (Value σ β)) (t : α)
    (d : α → Option β) : Prop where
  root : ∃ c, d t = some c
  reached : ∀ x c, d x = some c → Reachable g t x
  inj : ∀ x y c, d x = some c → d y = some c → x = y
  copies : ∀ x c, d x = some c → CopyOf d (g x) (g' c)

/-- What is reachable was reached. -/
theorem Copied.met (h : Copied g g' t d) (hx : Reachable g t x) : ∃ c, d x = some c := by
  induction hx with
  | refl => exact h.root
  | tail _ hedge ih =>
    obtain ⟨c, hc⟩ := ih
    obtain ⟨k, hk⟩ := hedge
    exact (h.copies _ c hc).ref hk

/-- **A complete memo is an isomorphism.** -/
theorem Copied.iso [Nonempty β] (h : Copied g g' t d) :
    ∃ f : α → β, (∀ x c, d x = some c → f x = c) ∧
      Set.BijOn f {x | Reachable g t x} {c | ∃ x, d x = some c} ∧
      ∀ x, Reachable g t x → ∀ k, g' (f x) k = (g x k).map (Value.map f) := by
  have hf : ∀ x c, d x = some c → (d x).getD (Classical.arbitrary β) = c := by
    intro x c hx
    rw [hx, Option.getD_some]
  refine ⟨fun x => (d x).getD (Classical.arbitrary β), hf, ⟨?_, ?_, ?_⟩, ?_⟩
  · intro x hx
    obtain ⟨c, hc⟩ := h.met hx
    exact ⟨x, hc.trans (congrArg some (hf x c hc)).symm⟩
  · intro x hx y hy hxy
    obtain ⟨c, hc⟩ := h.met hx
    obtain ⟨c', hc'⟩ := h.met hy
    simp only [hf x c hc, hf y c' hc'] at hxy
    exact h.inj x y c hc (hxy ▸ hc')
  · rintro c ⟨x, hx⟩
    exact ⟨x, h.reached x c hx, hf x c hx⟩
  · intro x hx k
    obtain ⟨c, hc⟩ := h.met hx
    have hrel := h.copies x c hc k
    simp only [hf x c hc]
    generalize g x k = a at hrel
    generalize g' c k = b at hrel
    rcases hrel with ⟨hab⟩ | _
    · cases hab with
      | plain a => rfl
      | ref hy =>
        rw [Option.map_some, Value.map, hf _ _ hy]
    · rfl

/-! ## How much is left -/

/-- The objects that the memo lacks. -/
def unmet [DecidableEq α] (s : Finset α) (d : α → Option β) : ℕ := (s.filter fun x => (d x).isNone).card

theorem unmet_le [DecidableEq α] {s : Finset α} (h : Grows d d') : unmet s d' ≤ unmet s d := by
  apply Finset.card_le_card
  intro x hx
  rw [Finset.mem_filter] at hx ⊢
  refine ⟨hx.1, ?_⟩
  rw [Option.isNone_iff_eq_none]
  by_contra hsome
  obtain ⟨c, hc⟩ := Option.ne_none_iff_exists'.1 hsome
  rw [h x c hc] at hx
  exact absurd hx.2 (by simp)

theorem unmet_update [DecidableEq α] {s : Finset α} (hs : x ∈ s) (hx : d x = none) (c : β) :
    unmet s (Function.update d x (some c)) < unmet s d := by
  apply Finset.card_lt_card
  rw [Finset.ssubset_iff_of_subset]
  · refine ⟨x, ?_, ?_⟩
    · rw [Finset.mem_filter, hx]
      exact ⟨hs, rfl⟩
    · rw [Finset.mem_filter, Function.update_self]
      simp
  · intro y hy
    rw [Finset.mem_filter] at hy ⊢
    by_cases hyx : y = x
    · rw [hyx, Function.update_self] at hy
      exact absurd hy.2 (by simp)
    · rwa [Function.update_of_ne hyx] at hy

end ObjectGraph
