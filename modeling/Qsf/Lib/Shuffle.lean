import Mathlib.Data.List.Nodup
import Mathlib.Logic.Equiv.Basic
import Mathlib.Tactic

/-!
# Shuffling by exchanges over a growing prefix

For `n = 1, 2, ...` the entry at `n` is exchanged with the entry at some `c n ≤ n`.

* `exchange`: an exchange renames indices by a transposition (`getElem?_exchange`).
* `shuffle_injective`, `shuffle_surjective`: when the entries are distinct, each arrangement
  comes from one sequence of choices. The last choice is where the last entry is, and the
  exchange can be undone.
-/

set_option autoImplicit false

universe u

namespace Shuffle

variable {α : Type u} {l l' : List α} {i j k n : ℕ} {c d : ℕ → ℕ}

/-- Exchange two entries. -/
def exchange (l : List α) (i j : ℕ) : List α :=
  match l[i]?, l[j]? with
  | some x, some y => (l.set i y).set j x
  | _, _ => l

/-- Exchange the entry at `m` with that at `c m`, for `m` from 1 to `n`. -/
def shuffle (c : ℕ → ℕ) : ℕ → List α → List α
  | 0, l => l
  | n + 1, l => exchange (shuffle c n l) (c (n + 1)) (n + 1)

/-! ## Exchanges -/

theorem exchange_eq (hi : i < l.length) (hj : j < l.length) :
    exchange l i j = (l.set i l[j]).set j l[i] := by
  unfold exchange
  rw [List.getElem?_eq_getElem hi, List.getElem?_eq_getElem hj]

theorem exchange_perm (hi : i < l.length) (hj : j < l.length) : (exchange l i j).Perm l := by
  rw [exchange_eq hi hj]
  exact List.set_set_perm hi hj

/-- **An exchange renames indices.** -/
theorem getElem?_exchange (hi : i < l.length) (hj : j < l.length) (k : ℕ) :
    (exchange l i j)[k]? = l[Equiv.swap i j k]? := by
  rw [exchange_eq hi hj]
  by_cases hkj : k = j
  · subst hkj
    rw [Equiv.swap_apply_right, List.getElem?_set_self (by rw [List.length_set]; exact hj),
      List.getElem?_eq_getElem hi]
  · rw [List.getElem?_set_ne (Ne.symm hkj)]
    by_cases hki : k = i
    · subst hki
      rw [Equiv.swap_apply_left, List.getElem?_set_self hi, List.getElem?_eq_getElem hj]
    · rw [List.getElem?_set_ne (Ne.symm hki), Equiv.swap_apply_of_ne_of_ne hki hkj]

/-- An exchange undoes itself. -/
theorem exchange_exchange (hi : i < l.length) (hj : j < l.length) : exchange (exchange l i j) i j = l := by
  have hlen := (exchange_perm hi hj).length_eq
  apply List.ext_getElem?
  intro k
  rw [getElem?_exchange (hlen.symm ▸ hi) (hlen.symm ▸ hj), getElem?_exchange hi hj, Equiv.swap_apply_self]

/-! ## Runs of exchanges -/

/-- Each choice is within the prefix. -/
def Within (c : ℕ → ℕ) (n : ℕ) : Prop := ∀ m, 1 ≤ m → m ≤ n → c m ≤ m

theorem Within.pred (h : Within c (n + 1)) : Within c n := fun m h1 hm => h m h1 (Nat.le_succ_of_le hm)

theorem shuffle_perm (hc : Within c n) (hn : n < l.length) : (shuffle c n l).Perm l := by
  induction n with
  | zero => exact List.Perm.refl l
  | succ n ih =>
    have hperm := ih hc.pred (Nat.lt_of_succ_lt hn)
    have hlast := hc (n + 1) (Nat.le_add_left 1 n) (le_refl _)
    have hlen := hperm.length_eq
    exact (exchange_perm (by omega) (by omega)).trans hperm

/-- The entries behind the prefix stay. -/
theorem shuffle_above (hc : Within c n) (hn : n < l.length) (hk : n < k) : (shuffle c n l)[k]? = l[k]? := by
  induction n with
  | zero => rfl
  | succ n ih =>
    have hlen := (shuffle_perm hc.pred (Nat.lt_of_succ_lt hn)).length_eq
    have hlast := hc (n + 1) (Nat.le_add_left 1 n) (le_refl _)
    rw [shuffle, getElem?_exchange (by omega) (by omega), Equiv.swap_apply_of_ne_of_ne (by omega) (by omega)]
    exact ih hc.pred (Nat.lt_of_succ_lt hn) (Nat.lt_of_succ_lt hk)

/-- **The last entry of the prefix goes where the last choice says.** -/
theorem shuffle_last (hc : Within c (n + 1)) (hn : n + 1 < l.length) :
    (shuffle c (n + 1) l)[c (n + 1)]? = l[n + 1]? := by
  have hlen := (shuffle_perm hc.pred (Nat.lt_of_succ_lt hn)).length_eq
  have hlast := hc (n + 1) (Nat.le_add_left 1 n) (le_refl _)
  rw [shuffle, getElem?_exchange (by omega) (by omega), Equiv.swap_apply_left]
  exact shuffle_above hc.pred (Nat.lt_of_succ_lt hn) (Nat.lt_succ_self n)

/-- Only the choices up to `n` count. -/
theorem shuffle_congr (h : ∀ m, 1 ≤ m → m ≤ n → c m = d m) : shuffle c n l = shuffle d n l := by
  induction n with
  | zero => rfl
  | succ n ih =>
    rw [shuffle, shuffle, ih fun m h1 hm => h m h1 (Nat.le_succ_of_le hm),
      h (n + 1) (Nat.le_add_left 1 n) (le_refl _)]

/-- Distinct entries have distinct indices. -/
theorem index_inj (hnd : l.Nodup) (hi : i < l.length) (h : l[i]? = l[j]?) : i = j :=
  (List.getElem?_inj hi hnd).1 h

/-- **No arrangement is favoured**: different choices give different arrangements. -/
theorem shuffle_injective (hnd : l.Nodup) (hc : Within c n) (hd : Within d n) (hn : n < l.length)
    (h : shuffle c n l = shuffle d n l) : ∀ m, 1 ≤ m → m ≤ n → c m = d m := by
  induction n with
  | zero =>
    intro m h1 hm
    omega
  | succ n ih =>
    have hpc := shuffle_perm hc hn
    have hlast := hc (n + 1) (Nat.le_add_left 1 n) (le_refl _)
    have hlast' := hd (n + 1) (Nat.le_add_left 1 n) (le_refl _)
    -- both have the last entry where they chose
    have heq : c (n + 1) = d (n + 1) := by
      apply index_inj (hpc.nodup_iff.2 hnd) (by rw [hpc.length_eq]; omega)
      rw [shuffle_last hc hn, h, shuffle_last hd hn]
    have hlc := (shuffle_perm hc.pred (Nat.lt_of_succ_lt hn)).length_eq
    have hld := (shuffle_perm hd.pred (Nat.lt_of_succ_lt hn)).length_eq
    have hprev : shuffle c n l = shuffle d n l := by
      rw [shuffle, shuffle, heq] at h
      have hundo : exchange (exchange (shuffle c n l) (d (n + 1)) (n + 1)) (d (n + 1)) (n + 1)
          = exchange (exchange (shuffle d n l) (d (n + 1)) (n + 1)) (d (n + 1)) (n + 1) := by rw [h]
      rwa [exchange_exchange (by omega) (by omega), exchange_exchange (by omega) (by omega)] at hundo
    intro m h1 hm
    rcases Nat.lt_or_ge n m with hgt | hle
    · have hmn : m = n + 1 := by omega
      rw [hmn, heq]
    · exact ih hc.pred hd.pred (Nat.lt_of_succ_lt hn) hprev m h1 hle

/-- One entry is determined by the others. -/
theorem eq_of_perm_of_getElem? (hperm : l'.Perm l) (habove : ∀ k, 0 < k → l'[k]? = l[k]?) : l' = l := by
  cases l with
  | nil => exact hperm.eq_nil
  | cons x t =>
    cases l' with
    | nil => exact hperm.symm.eq_nil.symm
    | cons y t' =>
      have htail : t' = t := by
        apply List.ext_getElem?
        intro k
        simpa only [List.getElem?_cons_succ] using habove (k + 1) (Nat.succ_pos k)
      subst htail
      have hone : [y].Perm [x] := (List.perm_append_right_iff t').1 hperm
      rw [List.singleton_perm_singleton.1 hone]

/-- **No arrangement is missed.** -/
theorem shuffle_surjective (hnd : l.Nodup) (hn : n < l.length) (hperm : l'.Perm l)
    (habove : ∀ k, n < k → l'[k]? = l[k]?) : ∃ c, Within c n ∧ shuffle c n l = l' := by
  induction n generalizing l' with
  | zero =>
    refine ⟨id, ?_, (eq_of_perm_of_getElem? hperm habove).symm⟩
    intro m h1 hm
    omega
  | succ n ih =>
    have hlen := hperm.length_eq
    obtain ⟨i, hi, hget⟩ := List.getElem_of_mem (hperm.mem_iff.2 (List.getElem_mem hn))
    have hget' : l'[i]? = l[n + 1]? := by rw [List.getElem?_eq_getElem hi, hget, List.getElem?_eq_getElem hn]
    have hle : i ≤ n + 1 := by
      by_contra hgt
      rw [habove i (not_le.1 hgt)] at hget'
      exact hgt (index_inj hnd (hlen ▸ hi) hget').le
    have hj : n + 1 < l'.length := by omega
    -- undo the exchange
    have hundo : ∀ k, n < k → (exchange l' i (n + 1))[k]? = l[k]? := by
      intro k hk
      rw [getElem?_exchange hi hj]
      rcases Nat.lt_or_ge (n + 1) k with hgt | hge
      · rw [Equiv.swap_apply_of_ne_of_ne (by omega) (by omega), habove k hgt]
      · have hkn : k = n + 1 := by omega
        rw [hkn, Equiv.swap_apply_right, hget']
    obtain ⟨c, hc, heq⟩ := ih (Nat.lt_of_succ_lt hn) ((exchange_perm hi hj).trans hperm) hundo
    have hcongr : shuffle (Function.update c (n + 1) i) n l = shuffle c n l := by
      apply shuffle_congr
      intro m _ hm
      rw [Function.update_of_ne (by omega)]
    refine ⟨Function.update c (n + 1) i, ?_, ?_⟩
    · intro m h1 hm
      by_cases hmn : m = n + 1
      · rw [hmn, Function.update_self]
        exact hle
      · rw [Function.update_of_ne hmn]
        exact hc m h1 (by omega)
    · rw [shuffle, hcongr, heq, Function.update_self]
      exact exchange_exchange hi hj

end Shuffle
