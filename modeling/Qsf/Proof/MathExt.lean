import Mathlib.Data.List.Permutation
import Mathlib.Data.Set.Card
import Mathlib.Probability.Distributions.Uniform
import Qsf.Lib.Shuffle
import Qsf.Spec.MathExt

/-!
# Extensions of `math`: the greatest common divisor, and what a shuffle is worth

* `mathGcd_eq`: each step keeps the greatest common divisor (`gcd_luaMod`), whatever signs the
  remainders have.
* `shuffle_unbiased`: the loop of `math.shuffle_array` is `Shuffle.shuffle`, so each arrangement
  comes from one sequence of random numbers.
-/

set_option autoImplicit false

universe u

namespace Qsf

open scoped Nat

/-! ## `math.gcd` -/

theorem toInt_mathAbs {a : Int64} (h : (a.toInt.natAbs : ℤ) < 2 ^ 63) : (mathAbs a).toInt = a.toInt.natAbs := by
  unfold mathAbs
  split
  · rename_i hneg
    rw [Int64.lt_iff_toInt_lt, Int64.toInt_zero] at hneg
    rw [Int64.toInt_neg, Int.bmod_eq_of_le (by omega) (by omega)]
    omega
  · rename_i hpos
    rw [Int64.lt_iff_toInt_lt, Int64.toInt_zero] at hpos
    omega

theorem gcd_luaMod (a : Int64) {b : Int64} (hb : b ≠ 0) :
    Int.gcd b.toInt (luaMod a b).toInt = Int.gcd a.toInt b.toInt := by
  rw [toInt_luaMod a hb, Int.fmod_def, Int.gcd_sub_mul_left_right, Int.gcd_comm]

/-- **`math.gcd` is the greatest common divisor**, where an integer can hold it. -/
theorem mathGcd_eq (a b : Int64) (h : (Int.gcd a.toInt b.toInt : ℤ) < 2 ^ 63) :
    (mathGcd a b).toInt = Int.gcd a.toInt b.toInt := by
  induction hm : b.toInt.natAbs using Nat.strong_induction_on generalizing a b with
  | _ m ih =>
    by_cases hb : b = 0
    · subst hb
      rw [Int64.toInt_zero, Int.gcd_zero_right] at h ⊢
      rw [mathGcd, if_neg (not_not.2 rfl)]
      exact toInt_mathAbs h
    · have hlt : (luaMod a b).toInt.natAbs < m := by
        rw [← hm, toInt_luaMod a hb]
        exact natAbs_fmod_lt a.toInt (toInt_ne_zero hb)
      rw [mathGcd, if_pos hb, ← gcd_luaMod a hb]
      apply ih _ hlt b (luaMod a b) _ rfl
      rw [gcd_luaMod a hb]
      exact h

theorem mathGcd_eq_min : (mathGcd Int64.minValue (-6)).toInt = 2 := mathGcd_eq Int64.minValue (-6) (by decide)

/-! ## `math.shuffle_array` -/

variable {α : Type u} {array l : List α} {random : ℕ → ℕ} {N n : ℕ}

/-- What `math.random(n)` promises, up to `N`. -/
def InRange (random : ℕ → ℕ) (N : ℕ) : Prop := ∀ n, 2 ≤ n → n ≤ N → 1 ≤ random n ∧ random n ≤ n

/-- The loop, in indices from 0. -/
theorem foldl_arraySwap (hr : InRange random (n + 1)) (l : List α) :
    (List.range' 2 n).foldl (fun array n => arraySwap array (random n) n) l
      = Shuffle.shuffle (fun m => random (m + 1) - 1) n l := by
  induction n with
  | zero => rfl
  | succ n ih =>
    rw [List.range'_1_concat, List.foldl_append, ih fun m h2 hm => hr m h2 (Nat.le_succ_of_le hm)]
    show arraySwap _ (random (2 + n)) (2 + n) = Shuffle.exchange _ (random (n + 1 + 1) - 1) (n + 1)
    rw [show 2 + n = n + 1 + 1 from by omega]
    rfl

theorem mathShuffleArray_eq (hr : InRange random array.length) :
    mathShuffleArray random array
      = Shuffle.shuffle (fun m => random (m + 1) - 1) (array.length - 1) array := by
  apply foldl_arraySwap
  intro m h2 hm
  exact hr m h2 (by omega)

theorem InRange.within (hr : InRange random N) : Shuffle.Within (fun m => random (m + 1) - 1) (N - 1) := by
  intro m h1 hm
  have := (hr (m + 1) (by omega) (by omega)).2
  show random (m + 1) - 1 ≤ m
  omega

theorem mathShuffleArray_perm (hr : InRange random array.length) :
    (mathShuffleArray random array).Perm array := by
  rw [mathShuffleArray_eq hr]
  cases array with
  | nil => exact List.Perm.refl _
  | cons x t => exact Shuffle.shuffle_perm hr.within (by simp)

/-! ## Sequences of random numbers -/

/-- The numbers drawn for an array of length `N`: the one for `n` is below `n`, from 0. -/
abbrev Choices (N : ℕ) := (k : Fin (N - 1)) → Fin (k + 2)

/-- What `math.random(n)` returns. -/
def drawn (r : Choices N) (n : ℕ) : ℕ := if h : n - 2 < N - 1 then r ⟨n - 2, h⟩ + 1 else 1

theorem drawn_eq (r : Choices N) (k : Fin (N - 1)) : drawn r (k + 2) = r k + 1 := by
  unfold drawn
  rw [dif_pos (show (k : ℕ) + 2 - 2 < N - 1 from k.isLt)]
  rfl

theorem drawn_inRange (r : Choices N) : InRange (drawn r) N := by
  intro n h2 hn
  obtain ⟨k, rfl⟩ : ∃ k, n = k + 2 := ⟨n - 2, by omega⟩
  rw [drawn_eq r ⟨k, by omega⟩]
  have : (r ⟨k, by omega⟩ : ℕ) < k + 2 := (r ⟨k, by omega⟩).isLt
  omega

/-- The choices that give the numbers `c n`, from 0. -/
def choicesOf (c : ℕ → ℕ) (N : ℕ) : Choices N := fun k => ⟨min (c (k + 1)) (k + 1), by omega⟩

theorem drawn_choicesOf {c : ℕ → ℕ} (hc : Shuffle.Within c (N - 1)) {m : ℕ} (h1 : 1 ≤ m) (hm : m ≤ N - 1) :
    drawn (choicesOf c N) (m + 1) - 1 = c m := by
  obtain ⟨k, rfl⟩ : ∃ k, m = k + 1 := ⟨m - 1, by omega⟩
  rw [drawn_eq _ ⟨k, by omega⟩]
  exact min_eq_left (hc (k + 1) h1 hm)

theorem choices_ext {r s : Choices N} (h : ∀ m, 1 ≤ m → m ≤ N - 1 → drawn r (m + 1) - 1 = drawn s (m + 1) - 1) :
    r = s := by
  funext k
  have hk := h (k + 1) (by omega) (by omega)
  rw [drawn_eq, drawn_eq] at hk
  exact Fin.ext hk

theorem card_choices (N : ℕ) : Fintype.card (Choices N) = N ! := by
  rw [Fintype.card_pi]
  simp only [Fintype.card_fin]
  rw [Fin.prod_univ_eq_prod_range (fun k => k + 2) (N - 1)]
  cases N with
  | zero => rfl
  | succ N =>
    rw [Nat.add_sub_cancel, Nat.factorial_eq_prod_range_add_one, Finset.prod_range_succ']
    simp

theorem shuffle_bijOn (hnd : array.Nodup) :
    Set.BijOn (fun r : Choices array.length => mathShuffleArray (drawn r) array) Set.univ
      {l | l.Perm array} := by
  refine ⟨?_, ?_, ?_⟩
  · intro r _
    exact mathShuffleArray_perm (drawn_inRange r)
  · intro r _ s _ h
    simp only [mathShuffleArray_eq (drawn_inRange r), mathShuffleArray_eq (drawn_inRange s)] at h
    rcases Nat.eq_zero_or_pos array.length with hzero | hpos
    · apply choices_ext
      intro m h1 hm
      omega
    · apply choices_ext
      exact Shuffle.shuffle_injective hnd (drawn_inRange r).within (drawn_inRange s).within (by omega) h
  · intro l hl
    have hl : l.Perm array := hl
    rcases Nat.eq_zero_or_pos array.length with hzero | hpos
    · have hnil := List.eq_nil_of_length_eq_zero hzero
      subst hnil
      exact ⟨choicesOf id _, Set.mem_univ _, hl.eq_nil.symm⟩
    · have hlen := hl.length_eq
      obtain ⟨c, hc, heq⟩ := Shuffle.shuffle_surjective hnd (Nat.sub_lt hpos one_pos) hl (by
        intro k hk
        rw [List.getElem?_eq_none (by omega), List.getElem?_eq_none (by omega)])
      refine ⟨choicesOf c _, Set.mem_univ _, ?_⟩
      show mathShuffleArray _ array = l
      rw [mathShuffleArray_eq (drawn_inRange _), ← heq]
      apply Shuffle.shuffle_congr
      intro m h1 hm
      exact drawn_choicesOf hc h1 hm

/-- The numbers are drawn uniformly, and independently of each other. -/
noncomputable def uniformChoices (N : ℕ) : PMF (Choices N) :=
  PMF.ofFintype (fun r => ∏ k : Fin (N - 1), PMF.uniformOfFintype (Fin (k + 2)) (r k)) (by
    rw [← Fintype.piFinset_univ, ← Finset.prod_univ_sum]
    apply Finset.prod_eq_one
    intro k _
    exact (tsum_fintype _).symm.trans (PMF.tsum_coe _))

theorem uniformChoices_apply (r : Choices N) : uniformChoices N r = (N ! : ENNReal)⁻¹ := by
  rw [uniformChoices, PMF.ofFintype_apply, ← card_choices, Fintype.card_pi, Nat.cast_prod,
    ENNReal.prod_inv_distrib (by simp [Set.Pairwise])]
  simp only [PMF.uniformOfFintype_apply]

/-- **Each arrangement is as likely as any other.** -/
theorem map_uniformChoices (hnd : array.Nodup) (hl : l.Perm array) :
    (uniformChoices array.length).map (fun r => mathShuffleArray (drawn r) array) l
      = (array.length ! : ENNReal)⁻¹ := by
  obtain ⟨-, hinj, hsurj⟩ := shuffle_bijOn hnd
  obtain ⟨r, -, rfl⟩ := hsurj hl
  rw [PMF.map_apply, tsum_eq_single r, if_pos rfl, uniformChoices_apply]
  intro s hs
  rw [if_neg]
  intro heq
  exact hs (hinj (Set.mem_univ s) (Set.mem_univ r) heq.symm)

theorem ncard_perm (hnd : array.Nodup) : {l : List α | l.Perm array}.ncard = array.length ! := by
  rw [← (shuffle_bijOn hnd).image_eq, (shuffle_bijOn hnd).injOn.ncard_image, Set.ncard_univ,
    Nat.card_eq_fintype_card, card_choices]

/-! ## `math.random_array` -/

/-- The loop ends below the maximum, having had each integer once. -/
theorem luaFor_eq {max : Int64} (hmax : max < Int64.maxValue) :
    ∀ (k : ℕ) (n : Int64), (max.toInt + 1 - n.toInt).toNat = k →
      ∃ l : List Int64, l.Nodup ∧ (∀ x, x ∈ l ↔ n ≤ x ∧ x ≤ max) ∧
        ∀ fuel, k < fuel → luaFor fuel n max = .ok l := by
  intro k
  induction k with
  | zero =>
    intro n hk
    have hgt : ¬ n ≤ max := by
      rw [Int64.le_iff_toInt_le]
      omega
    refine ⟨[], List.nodup_nil, ?_, ?_⟩
    · intro x
      rw [Int64.le_iff_toInt_le] at *
      simp only [List.not_mem_nil, false_iff, Int64.le_iff_toInt_le]
      omega
    · intro fuel hfuel
      obtain ⟨fuel, rfl⟩ := Nat.exists_eq_succ_of_ne_zero hfuel.ne'
      rw [luaFor, if_neg hgt]
  | succ k ih =>
    intro n hk
    have hle : n ≤ max := by
      rw [Int64.le_iff_toInt_le]
      omega
    have hsucc : (n + 1).toInt = n.toInt + 1 := by
      rw [Int64.lt_iff_toInt_lt] at hmax
      rw [Int64.le_iff_toInt_le] at hle
      have hlo := n.le_toInt
      have hmaxv : Int64.maxValue.toInt = 2 ^ 63 - 1 := by decide
      have hone : (1 : Int64).toInt = 1 := by decide
      rw [Int64.toInt_add, hone, Int.bmod_eq_of_le (by omega) (by omega)]
    obtain ⟨l, hnd, hmem, hfor⟩ := ih (n + 1) (by rw [hsucc]; omega)
    refine ⟨n :: l, ?_, ?_, ?_⟩
    · rw [List.nodup_cons, hmem, Int64.le_iff_toInt_le, hsucc]
      refine ⟨?_, hnd⟩
      omega
    · intro x
      rw [List.mem_cons, hmem, ← Int64.toInt_inj]
      simp only [Int64.le_iff_toInt_le, hsucc] at hle ⊢
      omega
    · intro fuel hfuel
      obtain ⟨fuel, rfl⟩ := Nat.exists_eq_succ_of_ne_zero (Nat.ne_zero_of_lt hfuel)
      rw [luaFor, if_pos hle, hfor fuel (Nat.lt_of_succ_lt_succ hfuel)]
      rfl

theorem mathRandomArray_returns {min max : Int64} (hle : min ≤ max) (hmax : max < Int64.maxValue)
    (hr : ∀ N, InRange random N) :
    ∃ l, Returns (mathRandomArray random min max) l ∧ ∀ x, l.count x = if min ≤ x ∧ x ≤ max then 1 else 0 := by
  obtain ⟨l, hnd, hmem, hfor⟩ := luaFor_eq hmax _ min rfl
  refine ⟨mathShuffleArray random l, ⟨(max.toInt + 1 - min.toInt).toNat + 1, ?_⟩, ?_⟩
  · intro fuel hfuel
    rw [mathRandomArray, if_pos hle, hfor fuel (Nat.lt_of_succ_le hfuel)]
    rfl
  · intro x
    rw [(mathShuffleArray_perm (hr _)).count_eq, List.Nodup.count hnd]
    simp only [hmem]

/-- **The shuffle is unbiased.** -/
theorem shuffle_unbiased (array : List α) (hnd : array.Nodup) :
    Set.BijOn (fun r : Choices array.length => mathShuffleArray (drawn r) array) Set.univ {l | l.Perm array} ∧
    {l : List α | l.Perm array}.ncard = array.length ! ∧
    (∀ l, l.Perm array → (uniformChoices array.length).map (fun r => mathShuffleArray (drawn r) array) l
      = (array.length ! : ENNReal)⁻¹) ∧
    ∀ (random : ℕ → ℕ) (min max : Int64), (∀ N, InRange random N) → min ≤ max → max < Int64.maxValue →
      ∃ l, Returns (mathRandomArray random min max) l ∧ ∀ x, l.count x = if min ≤ x ∧ x ≤ max then 1 else 0 :=
  ⟨shuffle_bijOn hnd, ncard_perm hnd, fun _ hl => map_uniformChoices hnd hl,
    fun _ _ _ hr hle hmax => mathRandomArray_returns hle hmax hr⟩

theorem shuffle_unbiased_three :
    Set.BijOn (fun r : Choices [10, 20, 30].length => mathShuffleArray (drawn r) [10, 20, 30]) Set.univ
      {l | l.Perm [10, 20, 30]} ∧
    {l : List ℕ | l.Perm [10, 20, 30]}.ncard = 6 ∧
    (∀ l, l.Perm [10, 20, 30] →
      (uniformChoices [10, 20, 30].length).map (fun r => mathShuffleArray (drawn r) [10, 20, 30]) l
        = ((6 : ℕ) : ENNReal)⁻¹) ∧
    ∃ l, Returns (mathRandomArray (fun _ => 1) (-2) 3) l ∧ ∀ x, l.count x = if -2 ≤ x ∧ x ≤ 3 then 1 else 0 := by
  obtain ⟨hbij, hcard, huniform, hrandom⟩ := shuffle_unbiased [10, 20, 30] (by decide)
  refine ⟨hbij, hcard, huniform, ?_⟩
  apply hrandom (fun _ => 1) (-2) 3 _ (by decide) (by decide)
  intro N n h2 hn
  show 1 ≤ 1 ∧ 1 ≤ n
  omega

end Qsf
