import Qsf.Proof.LuaString

/-!
# Rules for matching patterns

What `match` of the pattern library gives for a pattern, from what it gives for the rest of the
pattern.

* `Gives`: the outcome, wherever at least `k` nested calls are left.
* `Gives.star`, `Gives.minus`: repetitions, the longest or the shortest with which the rest matches.
* `findFrom_here`: where `string.find` finds the pattern.
-/

set_option autoImplicit false

namespace Qsf

variable {s : List UInt8} {p : List PatternItem} {cls : PatternClass} {k i m n : ℕ} {caps : List Capture}
  {o : Option (ℕ × List Capture)} {r : ℕ × List Capture}

/-- The pattern gives `o` at `i`, with `k` nested calls left or more. -/
def Gives (s : List UInt8) (p : List PatternItem) (k i : ℕ) (caps : List Capture) (o : Option (ℕ × List Capture)) :
    Prop :=
  ∀ d, k ≤ d → doMatch s p d i caps = .ok o

theorem Gives.mono {k' : ℕ} (h : Gives s p k i caps o) (hk : k ≤ k') : Gives s p k' i caps o :=
  fun d hd => h d (hk.trans hd)

theorem Gives.nil : Gives s [] 0 i caps (some (i, caps)) := fun _ _ => rfl

/-- A call by `match` of itself. -/
theorem nested_gives (h : Gives s p k i caps o) : ∀ d, k + 1 ≤ d → (nested d fun d => doMatch s p d i caps) = .ok o := by
  intro d hd
  obtain ⟨d, rfl⟩ := Nat.exists_eq_succ_of_ne_zero (Nat.ne_zero_of_lt hd)
  exact h d (Nat.le_of_succ_le_succ hd)

theorem Gives.openCapture (hcaps : caps.length < LUA_MAXCAPTURES) (h : Gives s p k i (caps ++ [⟨i, .unfinished⟩]) o) :
    Gives s (.openCapture :: p) (k + 1) i caps o := by
  intro d hd
  rw [doMatch, if_neg (not_le.2 hcaps)]
  exact nested_gives h d hd

theorem Gives.closeCapture {l : ℕ} (hl : captureToClose caps = some l)
    (h : Gives s p k i (caps.modify l (closeAt i)) o) : Gives s (.closeCapture :: p) (k + 1) i caps o := by
  intro d hd
  rw [doMatch, hl]
  exact nested_gives h d hd

theorem Gives.once (hi : singlematch s i cls = true) (h : Gives s p k (i + 1) caps o) :
    Gives s (.single cls .once :: p) k i caps o := by
  intro d hd
  rw [doMatch, if_pos hi]
  exact h d hd

theorem Gives.once_none (hi : singlematch s i cls = false) : Gives s (.single cls .once :: p) 0 i caps none := by
  intro d _
  rw [doMatch, if_neg (by rw [hi]; exact Bool.false_ne_true)]

/-! ## Repetitions -/

theorem maxExpand_eq {f : ℕ → Matched} (hf : ∀ j, m < j → j ≤ n → f (i + j) = .ok none) (hm : m ≤ n)
    (hend : f (i + m) = .ok o) (ho : o = none → m = 0) : maxExpand f i n = .ok o := by
  induction n with
  | zero =>
    obtain rfl : m = 0 := by omega
    exact hend
  | succ n ih =>
    rw [maxExpand]
    rcases hm.eq_or_lt with rfl | hlt
    · rw [Nat.add_assoc, hend]
      cases o with
      | none => exact absurd (ho rfl) (Nat.succ_ne_zero n)
      | some r => rfl
    · rw [Nat.add_assoc, hf (n + 1) hlt le_rfl]
      exact ih (fun j hj hjn => hf j hj (Nat.le_succ_of_le hjn)) (Nat.le_of_lt_succ hlt)

theorem repetitions_eq : repetitions s i cls = 0 ↔ singlematch s i cls = false := by
  rw [repetitions, singlematch_eq]
  cases s.drop i with
  | nil => simp
  | cons c t => cases h : cls.test c <;> simp [h]

/-- **The longest repetition with which the rest matches.** -/
theorem Gives.star (hm : m ≤ repetitions s i cls)
    (hlong : ∀ j, m < j → j ≤ repetitions s i cls → Gives s p k (i + j) caps none)
    (h : Gives s p k (i + m) caps o) (ho : o = none → m = 0) :
    Gives s (.single cls .star :: p) (k + 1) i caps o := by
  intro d hd
  rw [doMatch]
  split
  · exact maxExpand_eq (fun j hj hjn => nested_gives (hlong j hj hjn) d hd) hm (nested_gives h d hd) ho
  next hs =>
    rw [Bool.not_eq_true, ← repetitions_eq] at hs
    obtain rfl : m = 0 := by omega
    exact h d (by omega)

theorem minExpand_eq {f : ℕ → Matched} {t : List UInt8} (hf : ∀ j < m, f (i + j) = .ok none)
    (hm : m ≤ (t.takeWhile fun c => cls.test c).length) (hend : f (i + m) = .ok (some r)) :
    minExpand cls f t i = .ok (some r) := by
  induction m generalizing i t with
  | zero => cases t <;> rw [minExpand, show f i = _ from hend]
  | succ m ih =>
    cases t with
    | nil => exact absurd hm (Nat.not_succ_le_zero m)
    | cons c t =>
      have hc : cls.test c = true := by
        by_contra hc
        rw [List.takeWhile_cons_of_neg (p := fun c => cls.test c) hc] at hm
        exact absurd hm (Nat.not_succ_le_zero m)
      rw [List.takeWhile_cons_of_pos (p := fun c => cls.test c) hc, List.length_cons] at hm
      rw [minExpand, show f i = _ from hf 0 (Nat.succ_pos m)]
      dsimp only
      rw [if_pos hc]
      refine ih (fun j hj => ?_) (Nat.le_of_succ_le_succ hm) ?_
      · rw [Nat.add_assoc, Nat.add_comm 1]
        exact hf (j + 1) (Nat.succ_lt_succ hj)
      · rw [Nat.add_assoc, Nat.add_comm 1]
        exact hend

/-- **The shortest repetition with which the rest matches.** -/
theorem Gives.minus (hshort : ∀ j < m, Gives s p k (i + j) caps none) (hm : m ≤ repetitions s i cls)
    (h : Gives s p k (i + m) caps (some r)) : Gives s (.single cls .minus :: p) (k + 1) i caps (some r) := by
  intro d hd
  rw [doMatch]
  split
  · exact minExpand_eq (fun j hj => nested_gives (hshort j hj) d hd) hm (nested_gives h d hd)
  next hs =>
    rw [Bool.not_eq_true, ← repetitions_eq] at hs
    obtain rfl : m = 0 := by omega
    exact h d (by omega)

/-! ## Finding and replacing -/

theorem nested_maxccalls (h : Gives s p k i caps o) (hk : k < MAXCCALLS) :
    (nested MAXCCALLS fun d => doMatch s p d i caps) = .ok o :=
  nested_gives h MAXCCALLS hk

variable {anchor : Bool} {vals : List LuaValue}

/-- A match where the search starts. -/
theorem findFrom_here (hk : k < MAXCCALLS) (h : Gives s p k i [] (some r))
    (hvals : r.2.mapM (pushOnecapture s) = .ok vals) :
    findFrom s p anchor n i = .ok (some ⟨i + 1, r.1, vals⟩) := by
  obtain ⟨j, caps⟩ := r
  dsimp only at hvals
  cases n <;> rw [findFrom, nested_maxccalls h hk] <;> dsimp only <;> rw [hvals] <;> rfl

theorem findFrom_anchor_none (hk : k < MAXCCALLS) (h : Gives s p k i [] none) :
    findFrom s p true n i = .ok none := by
  cases n with
  | zero => rw [findFrom, nested_maxccalls h hk]
  | succ n =>
    rw [findFrom, nested_maxccalls h hk]
    rfl

/-- `string.find` from the first character on, with a pattern that is not a plain text. -/
theorem stringFind_items {q : List UInt8} (hq : nospecials q = false) :
    stringFind s q 1 = if q.head? = some (ch '^') then findFrom s (patternItems q.tail.length q.tail) true s.length 0
      else findFrom s (patternItems q.length q) false s.length 0 := by
  have hinit : (max 1 (posrelat 1 s.length) - 1).toNat = 0 := by
    rw [posrelat, if_pos (by decide)]
    rfl
  unfold stringFind
  rw [hinit]
  dsimp only
  rw [if_neg (Nat.not_lt_zero _), if_neg (by rw [hq]; exact Bool.false_ne_true), Nat.sub_zero]
  by_cases hhead : q.head? = some (ch '^')
  · rw [if_pos hhead, hhead]
    rfl
  · have hbeq : (q.head? == some (ch '^')) = false := beq_eq_false_iff_ne.2 hhead
    rw [if_neg hhead, hbeq]
    rfl

/-! ## Where characters stand -/

theorem singlematch_append (pre t : List UInt8) (c : UInt8) (cls : PatternClass) :
    singlematch (pre ++ c :: t) pre.length cls = cls.test c := by
  rw [singlematch_eq, List.drop_left']
  · rfl
  · rfl

variable (cls) in
theorem repetitions_append {w t : List UInt8} (pre : List UInt8) (hw : ∀ c ∈ w, cls.test c = true)
    (ht : ∀ c ∈ t.head?, cls.test c = false) : repetitions (pre ++ (w ++ t)) pre.length cls = w.length := by
  have hstop : t.takeWhile (fun c => cls.test c) = [] := by
    cases t with
    | nil => rfl
    | cons c t => exact List.takeWhile_cons_of_neg (by rw [ht c rfl]; exact Bool.false_ne_true)
  rw [repetitions, List.drop_left' rfl, List.takeWhile_append_of_pos hw, hstop, List.append_nil]

/-! What stands at a position decides which rule applies. -/

section Position

variable {c : UInt8} {w t : List UInt8}

theorem drop_past (h : s.drop i = w ++ t) : s.drop (i + w.length) = t := by
  rw [← List.drop_drop, h, List.drop_left]

theorem drop_next (h : s.drop i = c :: t) : s.drop (i + 1) = t :=
  drop_past (w := [c]) h

theorem take_at (h : s.drop i = w ++ t) (hn : w.length = n) : (s.drop i).take n = w := by
  rw [h, ← hn, List.take_left]

variable (cls) in
theorem Gives.once_at (h : s.drop i = c :: t) (hc : cls.test c = true) (hp : Gives s p k (i + 1) caps o) :
    Gives s (.single cls .once :: p) k i caps o :=
  .once (by rw [singlematch_eq, h]; exact hc) hp

variable (cls) in
/-- All the characters of a class that stand here, if the rest matches behind them. -/
theorem Gives.star_at (h : s.drop i = w ++ t) (hw : ∀ c ∈ w, cls.test c = true)
    (ht : ∀ c ∈ t.head?, cls.test c = false) (hp : Gives s p k (i + w.length) caps (some r)) :
    Gives s (.single cls .star :: p) (k + 1) i caps (some r) := by
  have hrep : repetitions s i cls = w.length := by
    have hrun := repetitions_append cls [] hw ht
    rw [repetitions, h]
    exact hrun
  exact .star hrep.ge (fun j hj hle => absurd (hrep ▸ hle) (not_le.2 hj)) hp (fun e => by cases e)

/-- A text that the pattern has as it is. -/
theorem Gives.chars_at (h : s.drop i = w ++ t) (hp : Gives s p k (i + w.length) caps o) :
    Gives s (w.map (fun c => .single (.char c) .once) ++ p) k i caps o := by
  induction w generalizing i with
  | nil => exact hp
  | cons c w ih =>
    refine .once_at (.char c) h (beq_self_eq_true c) (ih (drop_next h) ?_)
    rw [Nat.add_assoc, Nat.add_comm 1]
    exact hp

end Position

end Qsf
