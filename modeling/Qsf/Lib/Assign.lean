import Mathlib.Data.List.Basic
import Mathlib.Logic.Function.Basic
import Mathlib.Tactic

/-!
# A loop of assignments

`assign key val n t` runs `t[key i] := val i` for `i = 0, …, n - 1`. A later assignment
to the same key hides an earlier one.

* `assign_visible`: the last assignment to a key stays.
* `assign_absent`: the other keys keep what they had.
* `assign_eq_iff`: two loops with the same keys end with the same map exactly when they
  agree on the assignments that stay.
-/

set_option autoImplicit false

universe u v

variable {κ : Type u} {β : Type v} [DecidableEq κ]

/-- `for i < n: t[key i] := val i`. -/
def assign (key : ℕ → κ) (val : ℕ → β) (n : ℕ) (t : κ → β) : κ → β :=
  (List.range n).foldl (fun t i => Function.update t (key i) (val i)) t

/-- No later assignment hides the one at `i`. -/
def Visible (key : ℕ → κ) (n i : ℕ) : Prop := i < n ∧ ∀ j, i < j → j < n → key j ≠ key i

instance (key : ℕ → κ) (n i : ℕ) : Decidable (Visible key n i) :=
  decidable_of_iff (i < n ∧ ∀ j < n, i < j → key j ≠ key i)
    ⟨fun h => ⟨h.1, fun j hij hj => h.2 j hj hij⟩, fun h => ⟨h.1, fun j hj hij => h.2 j hij hj⟩⟩

variable {key : ℕ → κ} {val : ℕ → β} {n : ℕ} {t : κ → β}

theorem assign_succ :
    assign key val (n + 1) t = Function.update (assign key val n t) (key n) (val n) := by
  simp only [assign, List.range_succ, List.foldl_append, List.foldl_cons, List.foldl_nil]

theorem assign_absent {k : κ} (h : ∀ i < n, key i ≠ k) : assign key val n t k = t k := by
  induction n with
  | zero => rfl
  | succ n ih =>
    rw [assign_succ, Function.update_of_ne (h n (by omega)).symm]
    exact ih (fun i hi => h i (by omega))

theorem assign_visible (val : ℕ → β) (t : κ → β) {i : ℕ} (h : Visible key n i) :
    assign key val n t (key i) = val i := by
  induction n with
  | zero => exact absurd h.1 (by omega)
  | succ n ih =>
    obtain ⟨hi, hlater⟩ := h
    rw [assign_succ]
    by_cases hin : i = n
    · rw [hin, Function.update_self]
    · rw [Function.update_of_ne (hlater n (by omega) (by omega)).symm]
      exact ih ⟨by omega, fun j hij hj => hlater j hij (by omega)⟩

/-- A key that is assigned to has a last assignment. -/
theorem exists_visible (key : ℕ → κ) {i : ℕ} (hi : i < n) : ∃ j, Visible key n j ∧ key j = key i := by
  induction n with
  | zero => omega
  | succ n ih =>
    by_cases hlast : key n = key i
    · exact ⟨n, ⟨by omega, fun j hj hjn => by omega⟩, hlast⟩
    · have hin : i ≠ n := fun e => hlast (by rw [e])
      obtain ⟨j, ⟨hj, hlater⟩, hkey⟩ := ih (by omega)
      refine ⟨j, ⟨by omega, ?_⟩, hkey⟩
      intro m hjm hm
      by_cases hmn : m = n
      · rw [hmn, hkey]
        exact hlast
      · exact hlater m hjm (by omega)

/-- **Agreement on what stays.** -/
theorem assign_eq_iff {val' : ℕ → β} :
    assign key val n t = assign key val' n t ↔ ∀ i, Visible key n i → val i = val' i := by
  constructor
  · intro h i hi
    rw [← assign_visible val t hi, h, assign_visible val' t hi]
  · intro h
    funext k
    by_cases hk : ∀ i < n, key i ≠ k
    · rw [assign_absent hk, assign_absent hk]
    · simp only [not_forall, not_not] at hk
      obtain ⟨i, hi, hik⟩ := hk
      obtain ⟨j, hj, hji⟩ := exists_visible key hi
      rw [← hik, ← hji, assign_visible val t hj, assign_visible val' t hj]
      exact h j hj
