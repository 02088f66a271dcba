import Mathlib.Data.List.Infix
import Mathlib.Tactic

/-!
# Occurrences of a list in another

* `search`: the leftmost occurrence (`search_eq_some`, `search_eq_none`).
* `Pieces`: what is left when a separator is taken out, from left to right. The pieces joined
  give the list again (`Pieces.join`), none of them has the separator, and there is one more of
  them than of the separators (`Pieces.length`).
-/

set_option autoImplicit false

universe u

namespace Substring

variable {α : Type u} [DecidableEq α] {sep s : List α} {ps : List (List α)} {c : α} {i j k : ℕ}

/-! ## The leftmost occurrence -/

/-- Where `sep` occurs first. -/
def search (sep : List α) : List α → Option ℕ
  | [] => if sep.isPrefixOf [] then some 0 else none
  | c :: t => if sep.isPrefixOf (c :: t) then some 0 else (search sep t).map (· + 1)

theorem search_zero (h : sep <+: s) : search sep s = some 0 := by
  cases s with
  | nil => rw [search, if_pos (List.isPrefixOf_iff_prefix.2 h)]
  | cons c t => rw [search, if_pos (List.isPrefixOf_iff_prefix.2 h)]

theorem search_cons (h : ¬ sep <+: c :: s) : search sep (c :: s) = (search sep s).map (· + 1) := by
  rw [search, if_neg]
  rwa [List.isPrefixOf_iff_prefix]

theorem search_nil (h : ¬ sep <+: []) : search sep [] = none := by
  rw [search, if_neg]
  rwa [List.isPrefixOf_iff_prefix]

theorem search_eq_none : search sep s = none ↔ ¬ sep <:+: s := by
  induction s with
  | nil =>
    by_cases h : sep <+: []
    · simp [search_zero h, h.isInfix]
    · have hne : ¬ sep <:+: [] := by rwa [List.infix_nil, ← List.prefix_nil]
      simp [search_nil h, hne]
  | cons c t ih =>
    by_cases h : sep <+: c :: t
    · simp [search_zero h, h.isInfix]
    · rw [search_cons h, Option.map_eq_none_iff, ih, List.infix_cons_iff]
      simp [h]

/-- **The leftmost occurrence.** -/
theorem search_eq_some :
    search sep s = some k ↔ k ≤ s.length ∧ sep <+: s.drop k ∧ ∀ j, j < k → ¬ sep <+: s.drop j := by
  induction s generalizing k with
  | nil =>
    by_cases hp : sep <+: []
    · rw [search_zero hp, Option.some_inj]
      constructor
      · rintro rfl
        exact ⟨le_refl _, hp, by intro j hj; omega⟩
      · rintro ⟨hle, -, -⟩
        exact (Nat.le_zero.1 hle).symm
    · simp [search_nil hp, hp]
  | cons c t ih =>
    by_cases hp : sep <+: c :: t
    · rw [search_zero hp, Option.some_inj]
      constructor
      · rintro rfl
        exact ⟨Nat.zero_le _, hp, by intro j hj; omega⟩
      · rintro ⟨-, -, hmin⟩
        by_contra hk
        exact hmin 0 (Nat.pos_of_ne_zero (Ne.symm hk)) hp
    · rw [search_cons hp]
      cases k with
      | zero => simp [hp]
      | succ k =>
        rw [Option.map_eq_some_iff]
        constructor
        · rintro ⟨i, hi, hik⟩
          obtain rfl : i = k := Nat.succ.inj hik
          obtain ⟨hle, hpre, hmin⟩ := ih.1 hi
          refine ⟨Nat.succ_le_succ hle, hpre, ?_⟩
          intro j hj
          cases j with
          | zero => exact hp
          | succ j => exact hmin j (Nat.lt_of_succ_lt_succ hj)
        · rintro ⟨hle, hpre, hmin⟩
          refine ⟨k, ih.2 ⟨Nat.le_of_succ_le_succ hle, hpre, ?_⟩, rfl⟩
          intro j hj
          exact hmin (j + 1) (Nat.succ_lt_succ hj)

theorem prefix_of_search (h : search sep s = some k) : sep <+: s.drop k := (search_eq_some.1 h).2.1

theorem not_prefix_of_search (h : search sep s = some k) (hj : j < k) : ¬ sep <+: s.drop j :=
  (search_eq_some.1 h).2.2 j hj

theorem search_le_length (h : search sep s = some k) : k ≤ s.length := (search_eq_some.1 h).1

/-- What stands before, the occurrence, and what stands behind. -/
theorem eq_of_search (h : search sep s = some k) : s.take k ++ sep ++ s.drop (k + sep.length) = s := by
  have hp := List.prefix_iff_eq_append.1 (prefix_of_search h)
  rw [List.drop_drop] at hp
  rw [List.append_assoc, hp, List.take_append_drop]

/-- What stands before has no occurrence. -/
theorem not_infix_take (hne : sep ≠ []) (h : search sep s = some k) : ¬ sep <:+: s.take k := by
  rintro ⟨a, b, hab⟩
  have hpos := List.length_pos_of_ne_nil hne
  have hlen := congrArg List.length hab
  rw [List.length_append, List.length_append, List.length_take] at hlen
  apply not_prefix_of_search h (j := a.length) (by omega)
  have htake : sep <+: (s.take k).drop a.length := by
    rw [← hab, List.append_assoc, List.drop_left]
    exact List.prefix_append sep b
  exact htake.trans ((List.take_prefix k s).drop a.length)

/-! ## Counting occurrences -/

/-- The occurrences from left to right that do not overlap; `skip` entries belong to the last
one. -/
def occurrences (sep : List α) : ℕ → List α → ℕ
  | _, [] => 0
  | 0, c :: t => if sep.isPrefixOf (c :: t) then occurrences sep (sep.length - 1) t + 1 else occurrences sep 0 t
  | skip + 1, _ :: t => occurrences sep skip t

theorem occurrences_skip (k : ℕ) : occurrences sep k s = occurrences sep 0 (s.drop k) := by
  induction s generalizing k with
  | nil => rw [List.drop_nil, occurrences, occurrences]
  | cons c t ih =>
    cases k with
    | zero => rfl
    | succ k => exact ih k

theorem occurrences_none (h : search sep s = none) : occurrences sep 0 s = 0 := by
  induction s with
  | nil => rfl
  | cons c t ih =>
    rw [search_eq_none, List.infix_cons_iff, not_or] at h
    rw [occurrences, if_neg (by rw [List.isPrefixOf_iff_prefix]; exact h.1)]
    exact ih (search_eq_none.2 h.2)

theorem occurrences_some (hne : sep ≠ []) (h : search sep s = some k) :
    occurrences sep 0 s = occurrences sep 0 (s.drop (k + sep.length)) + 1 := by
  have hpos := List.length_pos_of_ne_nil hne
  induction s generalizing k with
  | nil =>
    rw [search_nil (by rwa [List.prefix_nil])] at h
    cases h
  | cons c t ih =>
    by_cases hp : sep <+: c :: t
    · rw [search_zero hp] at h
      cases h
      rw [occurrences, if_pos (List.isPrefixOf_iff_prefix.2 hp), occurrences_skip, Nat.zero_add]
      obtain ⟨n, hn⟩ := Nat.exists_eq_succ_of_ne_zero hpos.ne'
      rw [hn]
      rfl
    · rw [search_cons hp, Option.map_eq_some_iff] at h
      obtain ⟨j, hj, rfl⟩ := h
      rw [occurrences, if_neg (by rwa [List.isPrefixOf_iff_prefix]), ih hj, Nat.add_right_comm]
      rfl

/-! ## Taking out a separator -/

/-- The pieces between the separators. -/
inductive Pieces (sep : List α) : List α → List (List α) → Prop
  | last {s : List α} (h : search sep s = none) : Pieces sep s [s]
  | cons {s : List α} {k : ℕ} {ps : List (List α)} (h : search sep s = some k)
      (hps : Pieces sep (s.drop (k + sep.length)) ps) : Pieces sep s (s.take k :: ps)

theorem exists_pieces (hne : sep ≠ []) (s : List α) : ∃ ps, Pieces sep s ps := by
  have hpos := List.length_pos_of_ne_nil hne
  induction hn : s.length using Nat.strong_induction_on generalizing s with
  | _ n ih =>
    cases h : search sep s with
    | none => exact ⟨[s], .last h⟩
    | some k =>
      have hlen := (prefix_of_search h).length_le
      rw [List.length_drop] at hlen
      obtain ⟨ps, hps⟩ := ih _ (by rw [List.length_drop]; omega) (s.drop (k + sep.length)) rfl
      exact ⟨s.take k :: ps, .cons h hps⟩

theorem Pieces.ne_nil (h : Pieces sep s ps) : ps ≠ [] := by
  cases h with
  | last _ => exact List.cons_ne_nil _ _
  | cons _ _ => exact List.cons_ne_nil _ _

/-- **Joining the pieces gives the list again.** -/
theorem Pieces.join (h : Pieces sep s ps) : sep.intercalate ps = s := by
  induction h with
  | last _ => exact List.intercalate_singleton
  | cons h hps ih => rw [List.intercalate_cons_of_ne_nil hps.ne_nil, ih, eq_of_search h]

theorem Pieces.not_infix (hne : sep ≠ []) (h : Pieces sep s ps) : ∀ x ∈ ps, ¬ sep <:+: x := by
  induction h with
  | last h =>
    intro x hx
    rw [List.mem_singleton.1 hx]
    exact search_eq_none.1 h
  | cons h _ ih =>
    intro x hx
    rcases List.mem_cons.1 hx with rfl | hx
    · exact not_infix_take hne h
    · exact ih x hx

theorem Pieces.length (hne : sep ≠ []) (h : Pieces sep s ps) : ps.length = occurrences sep 0 s + 1 := by
  induction h with
  | last h => rw [occurrences_none h, List.length_singleton]
  | cons h _ ih => rw [List.length_cons, ih, occurrences_some hne h]

/-! ## Occurrences next to each other -/

omit [DecidableEq α] in
/-- A list that occurs again one entry later repeats one entry. -/
theorem prefix_cons_self : sep <+: c :: sep ↔ sep = List.replicate sep.length c := by
  induction sep with
  | nil => simp
  | cons d t ih =>
    rw [List.cons_prefix_cons, List.length_cons, List.replicate_succ, List.cons.injEq]
    constructor
    · rintro ⟨rfl, h⟩
      exact ⟨rfl, ih.1 h⟩
    · rintro ⟨rfl, h⟩
      exact ⟨rfl, ih.2 h⟩

end Substring
