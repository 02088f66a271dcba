import Mathlib.Data.List.Pairwise
import Mathlib.Logic.Function.Basic
import Mathlib.Tactic

/-!
# Queues through a relay

Senders put items into queues of their own, a relay takes them out one at a time and puts
each at the end of one receiver's queue. Anything may be lost on the way. Items carry
their sender and a rank that rises with every item of a sender.

* `Relay.Ordered`: between one sender and one receiver ranks rise, no item is in two
  receivers' queues, and every item is a known one.
* `Ordered.push`, `Ordered.take`, `Ordered.deliver`, `Ordered.lose`: the moves of the
  system keep it.
* `Ordered.into_filter`, `Ordered.nodup`: what this means for the receivers.
-/

set_option autoImplicit false

universe u v w

/-- A relation that holds within each class of a list and between the classes holds in the
list. -/
theorem pairwise_of_filter {α : Type u} {κ : Type v} [DecidableEq κ] {f : α → κ} {R : α → α → Prop}
    {l : List α} (hin : ∀ k, (l.filter (f · = k)).Pairwise R)
    (hout : ∀ a ∈ l, ∀ b ∈ l, f a ≠ f b → R a b) : l.Pairwise R := by
  induction l with
  | nil => exact List.Pairwise.nil
  | cons a l ih =>
    refine List.pairwise_cons.2 ⟨?_, ih ?_ ?_⟩
    · intro b hb
      by_cases hab : f a = f b
      · have hclass := hin (f a)
        rw [List.filter_cons_of_pos (by simp)] at hclass
        exact (List.pairwise_cons.1 hclass).1 b (List.mem_filter.2 ⟨hb, by simp [hab]⟩)
      · exact hout a List.mem_cons_self b (List.mem_cons_of_mem a hb) hab
    · intro k
      exact (hin k).sublist ((List.sublist_cons_self a l).filter _)
    · intro x hx y hy
      exact hout x (List.mem_cons_of_mem a hx) y (List.mem_cons_of_mem a hy)

structure Relay (ι : Type u) (κ : Type v) (τ : Type w) where
  /-- What each sender put in, and the relay did not take out. -/
  out : ι → List τ
  /-- What the relay took out and did not pass on. -/
  held : Option τ
  /-- What each receiver was passed, first to last. -/
  into : κ → List τ

namespace Relay

variable {ι : Type u} {κ : Type v} {τ : Type w} [DecidableEq ι] {src : τ → ι} {rank : τ → ℕ}
  {P P' : τ → Prop} {q q' : Relay ι κ τ} {i : ι} {x : τ}

/-- Sender `i` puts in `x`. -/
def push (q : Relay ι κ τ) (i : ι) (x : τ) : Relay ι κ τ :=
  { q with out := Function.update q.out i (q.out i ++ [x]) }

/-- The relay takes `x` from sender `i`, who has `xs` left. -/
def take (q : Relay ι κ τ) (i : ι) (x : τ) (xs : List τ) : Relay ι κ τ :=
  { q with out := Function.update q.out i xs, held := some x }

/-- The relay passes `x` on to receiver `j`. -/
def deliver [DecidableEq κ] (q : Relay ι κ τ) (x : τ) (j : κ) : Relay ι κ τ :=
  { q with held := none, into := Function.update q.into j (q.into j ++ [x]) }

/-- What there is between sender `i` and receiver `j`, first to last. -/
def line (src : τ → ι) (q : Relay ι κ τ) (i : ι) (j : κ) : List τ :=
  (q.into j ++ q.held.toList).filter (src · = i) ++ q.out i

structure Ordered (src : τ → ι) (rank : τ → ℕ) (P : τ → Prop) (q : Relay ι κ τ) : Prop where
  own : ∀ i, ∀ x ∈ q.out i, src x = i
  line : ∀ i j, (q.line src i j).Pairwise (rank · < rank ·)
  apart : ∀ j j', j ≠ j' → ∀ x ∈ q.into j, x ∉ q.into j'
  known : ∀ i j, ∀ x ∈ q.line src i j, P x

theorem ordered_empty : (⟨fun _ => [], none, fun _ => []⟩ : Relay ι κ τ).Ordered src rank P where
  own _ _ hx := by cases hx
  line _ _ := List.Pairwise.nil
  apart _ _ _ _ hx := by cases hx
  known _ _ _ hx := by cases hx

theorem Ordered.mono (h : q.Ordered src rank P) (hP : ∀ x, P x → P' x) : q.Ordered src rank P' :=
  ⟨h.own, h.line, h.apart, fun i j x hx => hP x (h.known i j x hx)⟩

/-! ## Moves -/

/-- Losing items keeps the order of the others. -/
theorem Ordered.lose (h : q.Ordered src rank P) (hout : ∀ i, (q'.out i).Sublist (q.out i))
    (hheld : q'.held.toList.Sublist q.held.toList) (hinto : ∀ j, (q'.into j).Sublist (q.into j)) :
    q'.Ordered src rank P := by
  have hline : ∀ i j, (q'.line src i j).Sublist (q.line src i j) := fun i j =>
    (((hinto j).append hheld).filter _).append (hout i)
  refine ⟨fun i x hx => h.own i x ((hout i).subset hx), fun i j => (h.line i j).sublist (hline i j), ?_,
    fun i j x hx => h.known i j x ((hline i j).subset hx)⟩
  intro j j' hne x hx hx'
  exact h.apart j j' hne x ((hinto j).subset hx) ((hinto j').subset hx')

theorem line_push (i k : ι) (j : κ) :
    (q.push i x).line src k j = q.line src k j ++ if k = i then [x] else [] := by
  unfold line push
  by_cases hk : k = i
  · subst hk
    simp only [if_true, Function.update_self, List.append_assoc]
  · simp only [if_neg hk, Function.update_of_ne hk, List.append_nil]

/-- A sender puts in an item that outranks all its others. -/
theorem Ordered.push (h : q.Ordered src rank P) (hsrc : src x = i) (hP : ∀ y, P y → P' y) (hx : P' x)
    (hfresh : ∀ y, P y → rank y < rank x) : (q.push i x).Ordered src rank P' where
  own k y hy := by
    by_cases hk : k = i
    · subst hk
      simp only [Relay.push, Function.update_self, List.mem_append, List.mem_singleton] at hy
      rcases hy with hy | rfl
      · exact h.own k y hy
      · exact hsrc
    · simp only [Relay.push, Function.update_of_ne hk] at hy
      exact h.own k y hy
  line k j := by
    rw [line_push, List.pairwise_append]
    refine ⟨h.line k j, ?_, ?_⟩
    · split
      · exact List.pairwise_singleton _ _
      · exact List.Pairwise.nil
    · intro y hy z hz
      split at hz
      · obtain rfl := List.mem_singleton.1 hz
        exact hfresh y (h.known k j y hy)
      · cases hz
  apart := h.apart
  known k j y hy := by
    rw [line_push, List.mem_append] at hy
    rcases hy with hy | hy
    · exact hP y (h.known k j y hy)
    · split at hy
      · obtain rfl := List.mem_singleton.1 hy
        exact hx
      · cases hy

/-- The relay takes out the first item of a sender. What it held before is lost. -/
theorem Ordered.take (h : q.Ordered src rank P) {xs : List τ} (hx : q.out i = x :: xs) :
    (q.take i x xs).Ordered src rank P := by
  have hsrc : src x = i := h.own i x (by rw [hx]; exact List.mem_cons_self)
  have hline : ∀ k j, ((q.take i x xs).line src k j).Sublist (q.line src k j) := by
    intro k j
    unfold Relay.line Relay.take
    rw [List.filter_append, List.filter_append]
    by_cases hk : k = i
    · subst hk
      simp only [Function.update_self, Option.toList_some, List.filter_singleton, hsrc, decide_true,
        cond_true]
      rw [hx, List.append_assoc, List.singleton_append]
      exact (List.sublist_append_left _ _).append_right _
    · have hdrop : ([x].filter fun y => decide (src y = k)) = [] := by
        simp [hsrc, Ne.symm hk]
      simp only [Function.update_of_ne hk, Option.toList_some, hdrop, List.append_nil]
      exact (List.sublist_append_left _ _).append_right _
  refine ⟨?_, fun k j => (h.line k j).sublist (hline k j), h.apart,
    fun k j y hy => h.known k j y ((hline k j).subset hy)⟩
  intro k y hy
  by_cases hk : k = i
  · subst hk
    simp only [Relay.take, Function.update_self] at hy
    exact h.own k y (by rw [hx]; exact List.mem_cons_of_mem x hy)
  · simp only [Relay.take, Function.update_of_ne hk] at hy
    exact h.own k y hy

/-- An item that the relay holds was not passed on to anyone. -/
theorem Ordered.held_new (h : q.Ordered src rank P) (hx : q.held = some x) (j : κ) :
    x ∉ q.into j := by
  intro hj
  have hline := h.line (src x) j
  unfold Relay.line at hline
  rw [hx, List.filter_append, List.pairwise_append] at hline
  have hlast := (List.pairwise_append.1 hline.1).2.2 x (List.mem_filter.2 ⟨hj, by simp⟩) x (by simp)
  exact lt_irrefl _ hlast

/-- The relay passes on what it holds. -/
theorem Ordered.deliver [DecidableEq κ] (h : q.Ordered src rank P) (hx : q.held = some x) (j : κ) :
    (q.deliver x j).Ordered src rank P := by
  have hline : ∀ i k, ((q.deliver x j).line src i k).Sublist (q.line src i k) := by
    intro i k
    unfold Relay.line Relay.deliver
    rw [hx]
    by_cases hk : k = j
    · subst hk
      simp only [Function.update_self, Option.toList_none, List.append_nil, Option.toList_some]
      exact List.Sublist.refl _
    · simp only [Function.update_of_ne hk, Option.toList_none, List.append_nil]
      exact ((List.sublist_append_left _ _).filter _).append_right _
  refine ⟨h.own, fun i k => (h.line i k).sublist (hline i k), ?_,
    fun i k y hy => h.known i k y ((hline i k).subset hy)⟩
  intro k k' hne y hy hy'
  by_cases hk : k = j
  · subst hk
    simp only [Relay.deliver, Function.update_self, List.mem_append, List.mem_singleton] at hy
    simp only [Relay.deliver, Function.update_of_ne (Ne.symm hne)] at hy'
    rcases hy with hy | rfl
    · exact h.apart k k' hne y hy hy'
    · exact h.held_new hx k' hy'
  · simp only [Relay.deliver, Function.update_of_ne hk] at hy
    by_cases hk' : k' = j
    · subst hk'
      simp only [Relay.deliver, Function.update_self, List.mem_append, List.mem_singleton] at hy'
      rcases hy' with hy' | rfl
      · exact h.apart k k' hne y hy hy'
      · exact h.held_new hx k hy
    · simp only [Relay.deliver, Function.update_of_ne hk'] at hy'
      exact h.apart k k' hne y hy hy'

/-! ## At the ends -/

theorem Ordered.out_known (h : q.Ordered src rank P) (j : κ) (hx : x ∈ q.out i) : P x :=
  h.known i j x (List.mem_append_right _ hx)

/-- What one receiver was passed rises, for each sender. -/
theorem Ordered.into_filter (h : q.Ordered src rank P) (i : ι) (j : κ) :
    ((q.into j).filter (src · = i)).Pairwise (rank · < rank ·) := by
  have hline := h.line i j
  unfold Relay.line at hline
  rw [List.filter_append, List.append_assoc] at hline
  exact (List.pairwise_append.1 hline).1

/-- What one receiver was passed holds nothing twice. -/
theorem Ordered.nodup (h : q.Ordered src rank P) (j : κ) : (q.into j).Nodup := by
  refine pairwise_of_filter (f := src) (fun i => (h.into_filter i j).imp fun hlt heq => ?_) ?_
  · rw [heq] at hlt
    exact lt_irrefl _ hlt
  · rintro a - b - hab rfl
    exact hab rfl

theorem Ordered.into_known (h : q.Ordered src rank P) {j : κ} (hx : x ∈ q.into j) : P x := by
  refine h.known (src x) j x (List.mem_append_left _ (List.mem_filter.2 ⟨?_, by simp⟩))
  exact List.mem_append_left _ hx

end Relay
