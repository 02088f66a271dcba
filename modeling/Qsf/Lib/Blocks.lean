import Mathlib.Algebra.Order.Floor.Div
import Mathlib.Tactic

/-!
# Cutting a list into blocks

`Cut b m xs`: the list `m` is cut into the blocks `xs`, all of length `b` but the last,
which may be shorter and is not empty.

* `exists_cut`: every list is cut into blocks of any positive length.
* `Cut.flatten`, `Cut.size`, `Cut.bounds`: the blocks put together are the list, there are
  `⌈m.length / b⌉` of them, and each has 1 to `b` elements.
* `cut_uniform`: blocks of one length are the cut of their concatenation, so what was cut
  into blocks and written block by block is cut at the same places when read back.
-/

universe u

variable {α : Type u}

/-- The blocks of length `b` of a list, the last one possibly shorter. -/
inductive Cut (b : ℕ) : List α → List (List α) → Prop
  | nil : Cut b [] []
  | last {x : List α} : x ≠ [] → x.length ≤ b → Cut b x [x]
  | cons {x rest : List α} {xs : List (List α)} : x.length = b → rest ≠ [] → Cut b rest xs →
      Cut b (x ++ rest) (x :: xs)

/-- The number of blocks, as programs compute it. -/
theorem ceilDiv_eq_div_add (n : ℕ) {b : ℕ} (hb : 0 < b) :
    n ⌈/⌉ b = n / b + if 0 < n % b then 1 else 0 := by
  have hn := Nat.div_add_mod n b
  have hlt := Nat.mod_lt n hb
  rw [Nat.ceilDiv_eq_add_pred_div]
  generalize n / b = q at hn ⊢
  generalize n % b = r at hn hlt ⊢
  have h1 : (q + 1) * b = b * q + b := by ring
  have h2 : (q + 1 + 1) * b = b * q + b + b := by ring
  have h0 : q * b = b * q := Nat.mul_comm q b
  split
  · exact Nat.div_eq_of_lt_le (by omega) (by omega)
  · exact Nat.div_eq_of_lt_le (by rw [Nat.add_zero]; omega) (by rw [Nat.add_zero]; omega)

theorem ceilDiv_add_self {n b : ℕ} (hb : 0 < b) : (b + n) ⌈/⌉ b = n ⌈/⌉ b + 1 := by
  rw [ceilDiv_eq_div_add _ hb, ceilDiv_eq_div_add _ hb, Nat.add_mod_left, Nat.add_div_left _ hb]
  omega

theorem ceilDiv_of_le {n b : ℕ} (hn : 0 < n) (hb : n ≤ b) : n ⌈/⌉ b = 1 := by
  rw [Nat.ceilDiv_eq_add_pred_div]
  exact Nat.div_eq_of_lt_le (by omega) (by omega)

/-- **Every list can be cut.** -/
theorem exists_cut {b : ℕ} (hb : 0 < b) (m : List α) : ∃ xs, Cut b m xs := by
  induction hn : m.length using Nat.strong_induction_on generalizing m with
  | _ n ih =>
    subst hn
    by_cases hm : m = []
    · subst hm
      exact ⟨[], .nil⟩
    · by_cases hle : m.length ≤ b
      · exact ⟨[m], .last hm hle⟩
      · have hlong : b < m.length := not_le.1 hle
        have hlen : (m.drop b).length = m.length - b := List.length_drop
        obtain ⟨xs, hxs⟩ := ih (m.drop b).length (by omega) (m.drop b) rfl
        refine ⟨m.take b :: xs, ?_⟩
        have hcut : Cut b (m.take b ++ m.drop b) (m.take b :: xs) := by
          refine .cons ?_ ?_ hxs
          · rw [List.length_take]
            omega
          · intro h
            rw [h, List.length_nil] at hlen
            omega
        rwa [List.take_append_drop] at hcut

namespace Cut

variable {b : ℕ} {m : List α} {xs : List (List α)}

theorem flatten (h : Cut b m xs) : xs.flatten = m := by
  induction h with
  | nil => rfl
  | last => exact List.append_nil _
  | cons _ _ _ ih => rw [List.flatten_cons, ih]

/-- **Each block** has 1 to `b` elements. -/
theorem bounds (hb : 0 < b) (h : Cut b m xs) : ∀ x ∈ xs, 1 ≤ x.length ∧ x.length ≤ b := by
  induction h with
  | nil => simp
  | last hne hle =>
    intro y hy
    rw [List.mem_singleton.1 hy]
    exact ⟨List.length_pos_iff.2 hne, hle⟩
  | cons hx _ _ ih =>
    intro y hy
    rcases List.mem_cons.1 hy with rfl | hy
    · omega
    · exact ih y hy

/-- **The number of blocks.** -/
theorem size (hb : 0 < b) (h : Cut b m xs) : xs.length = m.length ⌈/⌉ b := by
  induction h with
  | nil => rw [List.length_nil, List.length_nil, zero_ceilDiv]
  | last hne hle => rw [ceilDiv_of_le (List.length_pos_iff.2 hne) hle, List.length_singleton]
  | cons hx _ _ ih => rw [List.length_cons, List.length_append, hx, ceilDiv_add_self hb, ih]

end Cut

/-- **Blocks of one length** are the cut of their concatenation. -/
theorem cut_uniform {k : ℕ} (hk : 0 < k) {ys : List (List α)} (h : ∀ y ∈ ys, y.length = k) :
    Cut k ys.flatten ys := by
  induction ys with
  | nil => exact .nil
  | cons y ys ih =>
    have hy : y.length = k := h y List.mem_cons_self
    have hys := ih fun z hz => h z (List.mem_cons_of_mem _ hz)
    cases ys with
    | nil =>
      rw [List.flatten_cons, List.flatten_nil, List.append_nil]
      refine .last ?_ hy.le
      rw [← List.length_pos_iff]
      omega
    | cons z zs =>
      rw [List.flatten_cons]
      refine .cons hy ?_ hys
      have hz : z.length = k := h z (by simp)
      rw [← List.length_pos_iff, List.flatten_cons, List.length_append]
      omega

/-- The length of a concatenation of blocks of one length. -/
theorem length_flatten_uniform {k : ℕ} {ys : List (List α)} (h : ∀ y ∈ ys, y.length = k) :
    ys.flatten.length = k * ys.length := by
  rw [List.length_flatten, List.map_congr_left h, List.map_const', List.sum_replicate, smul_eq_mul,
    Nat.mul_comm]
