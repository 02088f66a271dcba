import Mathlib.Data.List.Basic
import Mathlib.Tactic

/-!
# Splitting a stream into items

A `Splitter` takes one item off the front of a list, or finds the list too short
for one. If more input never changes an item already complete, the stream can be
cut anywhere: `parse_append` says that parsing a list continues from the
unconsumed tail of any prefix of it.
-/

set_option autoImplicit false

universe u v

/-- How one item is taken off the front of the input. -/
structure Splitter (β : Type u) (γ : Type v) where
  split : List β → Option (γ × List β)
  shrinks : ∀ {p x r}, split p = some (x, r) → r.length < p.length
  stable : ∀ {p x r} (q : List β), split p = some (x, r) → split (p ++ q) = some (x, r ++ q)

namespace Splitter

variable {β : Type u} {γ : Type v} (S : Splitter β γ)

/-- All complete items, and the tail that is not one yet. -/
def parse (p : List β) : List γ × List β :=
  match h : S.split p with
  | none => ([], p)
  | some (x, r) =>
    have := S.shrinks h
    let t := parse r
    (x :: t.1, t.2)
termination_by p.length

variable {S}

theorem parse_none {p : List β} (h : S.split p = none) : S.parse p = ([], p) := by
  rw [parse]
  split
  · rfl
  · rename_i h'; rw [h] at h'; cases h'

theorem parse_some {p r : List β} {x : γ} (h : S.split p = some (x, r)) :
    S.parse p = (x :: (S.parse r).1, (S.parse r).2) := by
  rw [parse]
  split
  · rename_i h'; rw [h] at h'; cases h'
  · rename_i y r' h'
    rw [h] at h'
    cases h'
    rfl

/-- **Cut anywhere.** Parsing `p ++ q` is parsing `p`, then going on with its tail. -/
theorem parse_append (p q : List β) :
    S.parse (p ++ q) =
      ((S.parse p).1 ++ (S.parse ((S.parse p).2 ++ q)).1, (S.parse ((S.parse p).2 ++ q)).2) := by
  induction hn : p.length using Nat.strong_induction_on generalizing p with
  | _ n ih =>
    subst hn
    cases h : S.split p with
    | none => rw [parse_none h]; rfl
    | some xr =>
      obtain ⟨x, r⟩ := xr
      rw [parse_some (S.stable q h), parse_some h, ih _ (S.shrinks h) r rfl]
      rfl

/-- Parsing the concatenation of encoded items gives the items back. -/
theorem parse_flatten {α : Type v} (enc : α → List β) (dec : α → γ)
    (hsplit : ∀ x q, S.split (enc x ++ q) = some (dec x, q)) (hnil : S.split [] = none) (xs : List α) :
    S.parse (xs.map enc).flatten = (xs.map dec, []) := by
  induction xs with
  | nil => rw [List.map_nil, List.flatten_nil, parse_none hnil]; rfl
  | cons x xs ih =>
    rw [List.map_cons, List.flatten_cons, parse_some (hsplit x _), ih]
    rfl

end Splitter
