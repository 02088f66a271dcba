import Mathlib.Data.Finset.Card
import Mathlib.Logic.Function.Iterate
import Mathlib.Tactic

/-!
# Linear probing

`probe taken next n a` tries `a`, `next a`, `next (next a)`, ... and returns the
first candidate that is not taken, giving up after `n` tries.

* `probe_eq_iterate`: the answer is the first free point of the orbit.
* `probe_isSome`: when the orbit visits more distinct points than are taken, the
  probe succeeds.
-/

universe u

/-- The first of `a`, `next a`, ... that is free, among the first `n` candidates. -/
def probe {α : Type u} (taken : α → Bool) (next : α → α) : ℕ → α → Option α
  | 0, _ => none
  | n + 1, a => if taken a then probe taken next n (next a) else some a

variable {α : Type u} {taken : α → Bool} {next : α → α}

/-- The answer is a free point of the orbit, and all the points before it are taken. -/
theorem probe_eq_iterate {n : ℕ} {a b : α} (h : probe taken next n a = some b) :
    ∃ k < n, b = next^[k] a ∧ taken b = false ∧ ∀ j < k, taken (next^[j] a) = true := by
  induction n generalizing a with
  | zero => simp [probe] at h
  | succ n ih =>
    by_cases ht : taken a = true
    · rw [probe, if_pos ht] at h
      obtain ⟨k, hk, hb, hf, hj⟩ := ih h
      refine ⟨k + 1, by omega, by rw [hb, Function.iterate_succ_apply], hf, ?_⟩
      intro j hjk
      cases j with
      | zero => exact ht
      | succ j => rw [Function.iterate_succ_apply]; exact hj j (by omega)
    · rw [probe, if_neg ht, Option.some.injEq] at h
      exact ⟨0, by omega, by rw [← h]; rfl, by rw [← h]; simpa using ht, by omega⟩

/-- A probe that gives up has seen only taken points. -/
theorem probe_eq_none {n : ℕ} {a : α} (h : probe taken next n a = none) :
    ∀ k < n, taken (next^[k] a) = true := by
  induction n generalizing a with
  | zero => intro k hk; omega
  | succ n ih =>
    by_cases ht : taken a = true
    · rw [probe, if_pos ht] at h
      intro k hk
      cases k with
      | zero => exact ht
      | succ k => rw [Function.iterate_succ_apply]; exact ih h k (by omega)
    · rw [probe, if_neg ht] at h; exact absurd h (by simp)

/-- **Probing succeeds** when the first `l.length + 1` candidates are distinct and
only members of `l` are taken. -/
theorem probe_isSome [DecidableEq α] (next : α → α) {l : List α}
    (htaken : ∀ a, taken a = true → a ∈ l) {a : α}
    (hinj : ∀ i ≤ l.length, ∀ j ≤ l.length, next^[i] a = next^[j] a → i = j) :
    ∃ b, probe taken next (l.length + 1) a = some b := by
  rcases h : probe taken next (l.length + 1) a with _ | b
  · exfalso
    have hall := probe_eq_none h
    -- the orbit would inject `l.length + 1` points into `l`
    have hsub : (Finset.range (l.length + 1)).image (fun k => next^[k] a) ⊆ l.toFinset := by
      intro x hx
      obtain ⟨k, hk, rfl⟩ := Finset.mem_image.1 hx
      exact List.mem_toFinset.2 (htaken _ (hall k (Finset.mem_range.1 hk)))
    have hcard : ((Finset.range (l.length + 1)).image (fun k => next^[k] a)).card = l.length + 1 := by
      rw [Finset.card_image_of_injOn, Finset.card_range]
      intro i hi j hj hij
      simp only [Finset.coe_range, Set.mem_Iio] at hi hj
      exact hinj i (by omega) j (by omega) hij
    have := (Finset.card_le_card hsub).trans (List.toFinset_card_le l)
    omega
  · exact ⟨b, rfl⟩
