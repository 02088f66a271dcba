import Mathlib.Data.List.Nodup
import Mathlib.Logic.Function.Basic
import Mathlib.Tactic

/-!
# Singly linked lists and pointers to links

A list in memory is a head pointer and a `next` pointer in each element. Code that inserts
and removes walks with a pointer to a link: to the head pointer, or to the `next` pointer
of the element before.

* `Seg next p xs q`: from the pointer `p`, over the elements `xs`, to the pointer `q`.
* `Links.Holds`: the list in memory is `xs`.
* `linkAfter xs`: the link behind the elements `xs`. Writing through it changes what
  follows `xs`, and nothing else (`Links.seg_store`, `Links.store_next`).
-/

set_option autoImplicit false

universe u

/-- From `p` over `xs` to `q`. -/
def Seg {α : Type u} (next : α → Option α) : Option α → List α → Option α → Prop
  | p, [], q => p = q
  | p, a :: xs, q => p = some a ∧ Seg next (next a) xs q

section Seg

variable {α : Type u} {next next' : α → Option α} {p q r : Option α} {xs ys : List α} {a : α}

theorem seg_append : Seg next p (xs ++ ys) r ↔ ∃ q, Seg next p xs q ∧ Seg next q ys r := by
  induction xs generalizing p with
  | nil => simp [Seg]
  | cons x xs ih =>
    simp only [List.cons_append, Seg, ih]
    constructor
    · rintro ⟨hp, q, h1, h2⟩
      exact ⟨q, ⟨hp, h1⟩, h2⟩
    · rintro ⟨q, ⟨hp, h1⟩, h2⟩
      exact ⟨hp, q, h1, h2⟩

/-- Only the pointers of the elements on the way matter. -/
theorem Seg.congr (h : Seg next p xs q) (hn : ∀ a ∈ xs, next' a = next a) : Seg next' p xs q := by
  induction xs generalizing p with
  | nil => exact h
  | cons x xs ih =>
    refine ⟨h.1, ?_⟩
    rw [hn x List.mem_cons_self]
    exact ih h.2 fun a ha => hn a (List.mem_cons_of_mem _ ha)

end Seg

/-- What a pointer to a link points at. -/
inductive Link (α : Type u)
  | head
  | next (a : α)

/-- The pointers of a list in memory. -/
structure Links (α : Type u) where
  head : Option α
  next : α → Option α

/-- The link behind the elements `xs`. -/
def linkAfter {α : Type u} (xs : List α) : Link α :=
  match xs.getLast? with
  | none => .head
  | some a => .next a

namespace Links

variable {α : Type u}

def load (m : Links α) : Link α → Option α
  | .head => m.head
  | .next a => m.next a

def store [DecidableEq α] (m : Links α) (l : Link α) (q : Option α) : Links α :=
  match l with
  | .head => { m with head := q }
  | .next a => { m with next := Function.update m.next a q }

/-- The list in memory is `xs`. -/
def Holds (m : Links α) (xs : List α) : Prop := Seg m.next m.head xs none

variable {m : Links α} {pre post xs : List α} {q q' : Option α} {a b : α}

theorem linkAfter_nil : linkAfter ([] : List α) = .head := rfl

theorem linkAfter_snoc : linkAfter (xs ++ [a]) = .next a := by
  unfold linkAfter
  rw [List.getLast?_concat]

/-- Reading through the link behind `pre`. -/
theorem load_linkAfter (h : Seg m.next m.head pre q) : m.load (linkAfter pre) = q := by
  rcases List.eq_nil_or_concat pre with rfl | ⟨xs, a, rfl⟩
  · exact h
  · rw [List.concat_eq_append, seg_append] at h
    obtain ⟨q₁, -, -, hq⟩ := h
    rw [List.concat_eq_append, linkAfter_snoc]
    exact hq

/-- The pointer behind `pre` leads to the next element. -/
theorem Holds.load (h : m.Holds (pre ++ post)) : m.load (linkAfter pre) = post.head? := by
  obtain ⟨q, h1, h2⟩ := seg_append.1 h
  rw [load_linkAfter h1]
  cases post with
  | nil => exact h2
  | cons b post => exact h2.1

variable [DecidableEq α]

/-- **Writing through the link behind `pre`** changes where `pre` leads. -/
theorem seg_store (h : Seg m.next m.head pre q) (hn : pre.Nodup) :
    Seg (m.store (linkAfter pre) q').next (m.store (linkAfter pre) q').head pre q' := by
  rcases List.eq_nil_or_concat pre with rfl | ⟨xs, a, rfl⟩
  · rfl
  · rw [List.concat_eq_append] at h hn ⊢
    obtain ⟨q₁, h1, h2⟩ := seg_append.1 h
    have ha : a ∉ xs := fun e => (List.nodup_append.1 hn).2.2 a e a List.mem_cons_self rfl
    rw [linkAfter_snoc]
    refine seg_append.2 ⟨q₁, h1.congr ?_, h2.1, ?_⟩
    · intro b hb
      have hba : b ≠ a := fun e => ha (e ▸ hb)
      exact Function.update_of_ne hba ..
    · exact Function.update_self ..

/-- The pointers of elements that are not in `pre` are not touched. -/
theorem store_next (hb : b ∉ pre) : (m.store (linkAfter pre) q').next b = m.next b := by
  rcases List.eq_nil_or_concat pre with rfl | ⟨xs, a, rfl⟩
  · rfl
  · rw [List.concat_eq_append] at hb ⊢
    rw [linkAfter_snoc]
    have hba : b ≠ a := fun e => hb (by rw [e]; simp)
    exact Function.update_of_ne hba ..

/-- **Insertion at the end**: the new element is written through the last link. -/
theorem Holds.snoc (h : m.Holds xs) (hn : (xs ++ [a]).Nodup) (ha : m.next a = none) :
    (m.store (linkAfter xs) (some a)).Holds (xs ++ [a]) := by
  have hnd := List.nodup_append.1 hn
  have hax : a ∉ xs := fun e => hnd.2.2 a e a List.mem_cons_self rfl
  refine seg_append.2 ⟨some a, seg_store h hnd.1, rfl, ?_⟩
  show (m.store (linkAfter xs) (some a)).next a = none
  rw [store_next hax]
  exact ha

/-- **Removal**: the pointer of the element is written through the link before it. -/
theorem Holds.unlink (h : m.Holds (pre ++ a :: post)) (hn : (pre ++ a :: post).Nodup) :
    (m.store (linkAfter pre) (m.next a)).Holds (pre ++ post) := by
  obtain ⟨q, h1, -, h2⟩ := seg_append.1 h
  have hnd := List.nodup_append.1 hn
  refine seg_append.2 ⟨m.next a, seg_store h1 hnd.1, h2.congr ?_⟩
  intro b hb
  exact store_next fun e => hnd.2.2 b e b (List.mem_cons_of_mem _ hb) rfl

end Links
