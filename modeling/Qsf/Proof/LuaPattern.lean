import Qsf.Lib.Substring
import Qsf.Spec.LuaPattern

/-!
# What patterns find

* `luaFinder`: `string.find` finds a match that starts at or after the position, and does not
  end before it starts (`doMatch_ahead`, by induction on the pattern).
* `stringFind_literal`: characters that are not magic match themselves only.
* `stringFind_split`: the pattern `(.-)` before such characters finds the text up to them.
-/

set_option autoImplicit false

namespace Qsf

variable {s sep : List UInt8} {p : List PatternItem} {caps : List Capture} {c : UInt8} {d i j n : ℕ}
  {init : ℤ}

/-! ## A match goes ahead -/

/-- No match ends before `i`. -/
def Ahead (i : ℕ) (r : Matched) : Prop := ∀ j caps, r = .ok (some (j, caps)) → i ≤ j

theorem ahead_some (i : ℕ) (caps : List Capture) : Ahead i (.ok (some (i, caps))) := by
  intro j caps' h
  cases h
  exact le_refl i

theorem ahead_none (i : ℕ) : Ahead i (.ok none) := by
  intro j caps h
  cases h

theorem ahead_error (i : ℕ) (e : LuaRaise) : Ahead i (.error e) := by
  intro j caps h
  cases h

theorem Ahead.mono {r : Matched} (h : Ahead j r) (hij : i ≤ j) : Ahead i r :=
  fun k caps hr => le_trans hij (h k caps hr)

theorem ahead_ite {q : Prop} [Decidable q] {r r' : Matched} (h : Ahead i r) (h' : Ahead i r') :
    Ahead i (if q then r else r') := by
  split
  · exact h
  · exact h'

theorem ahead_nested {f : ℕ → Matched} (h : ∀ d, Ahead i (f d)) : Ahead i (nested d f) := by
  cases d with
  | zero => exact ahead_error i _
  | succ d => exact h d

theorem ahead_maxExpand {k : ℕ → Matched} (h : ∀ j, Ahead j (k j)) : Ahead i (maxExpand k i n) := by
  induction n with
  | zero => exact h i
  | succ n ih =>
    rw [maxExpand]
    split
    · exact ih
    · exact (h (i + n + 1)).mono (by omega)

theorem ahead_minExpand {cls : PatternClass} {k : ℕ → Matched} (h : ∀ j, Ahead j (k j)) (t : List UInt8)
    (i : ℕ) :
    Ahead i (minExpand cls k t i) := by
  induction t generalizing i with
  | nil => exact h i
  | cons c t ih =>
    rw [minExpand]
    split
    · split
      · exact (ih (i + 1)).mono (Nat.le_succ i)
      · exact ahead_none i
    · exact h i

theorem le_matchBalance {b e : UInt8} {cont : ℕ} {t : List UInt8}
    (h : matchBalance b e cont t i = some j) : i ≤ j := by
  induction t generalizing cont i with
  | nil =>
    rw [matchBalance] at h
    cases h
  | cons c t ih =>
    rw [matchBalance] at h
    split_ifs at h with hce hone hcb
    · cases h
      exact Nat.le_succ i
    · exact Nat.le_of_succ_le (ih h)
    · exact Nat.le_of_succ_le (ih h)
    · exact Nat.le_of_succ_le (ih h)

/-- **A match does not end before it starts.** -/
theorem doMatch_ahead (s : List UInt8) (p : List PatternItem) (d i : ℕ) (caps : List Capture) :
    Ahead i (doMatch s p d i caps) := by
  induction p generalizing d i caps with
  | nil => exact ahead_some i caps
  | cons item p ih =>
    cases item with
    | openCapture =>
      rw [doMatch]
      exact ahead_ite (ahead_error i _) (ahead_nested fun d => ih d i _)
    | positionCapture =>
      rw [doMatch]
      exact ahead_ite (ahead_error i _) (ahead_nested fun d => ih d i _)
    | closeCapture =>
      rw [doMatch]
      split
      · exact ahead_error i _
      · exact ahead_nested fun d => ih d i _
    | atEnd =>
      rw [doMatch]
      exact ahead_ite (ahead_some i caps) (ahead_none i)
    | balance b e =>
      rw [doMatch]
      apply ahead_ite _ (ahead_none i)
      split
      · exact ahead_none i
      · rename_i j hj
        exact (ih d j caps).mono (Nat.le_of_succ_le (le_matchBalance hj))
    | frontier set =>
      rw [doMatch]
      exact ahead_ite (ih d i caps) (ahead_none i)
    | capture l =>
      rw [doMatch]
      split
      · exact ahead_error i _
      · split
        · exact ahead_ite ((ih d _ caps).mono (Nat.le_add_right i _)) (ahead_none i)
        · exact ahead_none i
    | single cls suffix =>
      have hnext : ∀ j, Ahead j (nested d fun d => doMatch s p d j caps) :=
        fun j => ahead_nested fun d => ih d j caps
      cases suffix with
      | once =>
        rw [doMatch]
        exact ahead_ite ((ih d (i + 1) caps).mono (Nat.le_succ i)) (ahead_none i)
      | optional =>
        rw [doMatch]
        apply ahead_ite _ (ih d i caps)
        split
        · exact ih d i caps
        · exact (hnext (i + 1)).mono (Nat.le_succ i)
      | star =>
        rw [doMatch]
        exact ahead_ite (ahead_maxExpand hnext) (ih d i caps)
      | plus =>
        rw [doMatch]
        exact ahead_ite ((ahead_maxExpand hnext).mono (Nat.le_succ i)) (ahead_none i)
      | minus =>
        rw [doMatch]
        exact ahead_ite (ahead_minExpand hnext _ i) (ih d i caps)
    | malformed msg => exact ahead_error i _

theorem found_map {r : Except LuaRaise (List LuaValue)} {m : Found} (hle : i ≤ j)
    (h : (r.map fun captures => some (⟨i + 1, j, captures⟩ : Found)) = .ok (some m)) :
    i + 1 ≤ m.first ∧ m.first ≤ m.last + 1 := by
  cases r with
  | error e => cases h
  | ok captures =>
    cases h
    exact ⟨le_refl _, Nat.succ_le_succ hle⟩

theorem findFrom_found {anchor : Bool} {m : Found} (h : findFrom s p anchor n i = .ok (some m)) :
    i + 1 ≤ m.first ∧ m.first ≤ m.last + 1 := by
  have hahead : ∀ i, Ahead i (nested MAXCCALLS fun d => doMatch s p d i []) :=
    fun i => ahead_nested fun d => doMatch_ahead s p d i []
  induction n generalizing i with
  | zero =>
    rw [findFrom] at h
    split at h
    · cases h
    · exact found_map (hahead i _ _ ‹_›) h
    · cases h
  | succ n ih =>
    rw [findFrom] at h
    split at h
    · cases h
    · exact found_map (hahead i _ _ ‹_›) h
    · split at h
      · cases h
      · have hnext := ih h
        omega

theorem stringFind_found {p : List UInt8} {m : Found} (h : stringFind s p init = .ok (some m)) :
    init ≤ m.first ∧ m.first ≤ m.last + 1 := by
  have hinit : init ≤ (max 1 (posrelat init s.length) - 1).toNat + 1 := by
    rw [posrelat]
    split_ifs with hpos hfar
    · omega
    · omega
    · omega
  rw [stringFind] at h
  simp only at h
  generalize (max 1 (posrelat init s.length) - 1).toNat = i at h hinit
  by_cases hlong : s.length < i
  · rw [if_pos hlong] at h
    cases h
  · rw [if_neg hlong] at h
    by_cases hplain : nospecials p = true
    · rw [if_pos hplain, Except.ok.injEq, Option.map_eq_some_iff] at h
      obtain ⟨k, -, rfl⟩ := h
      show init ≤ ((i + k + 1 : ℕ) : ℤ) ∧ i + k + 1 ≤ i + k + p.length + 1
      omega
    · rw [if_neg hplain] at h
      have := findFrom_found h
      omega

/-- **`string.find` is one.** -/
def luaFinder : Finder where
  find := stringFind
  le_first h := (stringFind_found h).1
  first_le_last h := (stringFind_found h).2

/-! ## Characters that are not magic -/

/-- No character is magic. -/
def Literal (sep : List UInt8) : Prop := ∀ c ∈ sep, c ∉ magic

theorem Literal.tail (h : Literal (c :: sep)) : Literal sep := fun x hx => h x (List.mem_cons_of_mem c hx)

theorem literal_of_all (h : (sep.all fun c => !magic.contains c) = true) : Literal sep := by
  intro c hc
  have hall := List.all_eq_true.1 h c hc
  simpa using hall

theorem nospecials_literal (h : Literal sep) : nospecials sep = true := by
  rw [nospecials, List.all_eq_true]
  intro c hc
  have hnot : c ∉ specials := fun hmem => h c hc (List.mem_cons_of_mem _ (List.mem_cons_of_mem _ hmem))
  simp [hnot]

theorem lmemfind_eq (sep s : List UInt8) : lmemfind sep s = Substring.search sep s := by
  induction s with
  | nil => rfl
  | cons c t ih => rw [lmemfind, Substring.search, ih]

/-- **Characters that are not magic match themselves only.** -/
theorem stringFind_literal (h : Literal sep) (hi : i ≤ s.length) :
    stringFind s sep (i + 1)
      = .ok ((Substring.search sep (s.drop i)).map fun k => ⟨i + k + 1, i + k + sep.length, []⟩) := by
  have hinit : (max 1 (posrelat ((i : ℤ) + 1) s.length) - 1).toNat = i := by
    rw [posrelat, if_pos (by omega)]
    omega
  rw [stringFind]
  simp only [hinit]
  rw [if_neg (not_lt.2 hi), if_pos (nospecials_literal h), lmemfind_eq]

theorem suffixAt_literal (h : Literal sep) : suffixAt sep = (.once, sep) := by
  cases sep with
  | nil => rfl
  | cons c t =>
    have hc := h c (List.mem_cons_self ..)
    simp only [magic, specials, List.mem_cons, not_or] at hc
    simp [suffixAt, hc]

/-- The item of such a character. -/
def literalItem (c : UInt8) : PatternItem := .single (.char c) .once

theorem patternItem_literal (h : Literal (c :: sep)) : patternItem c sep = (literalItem c, sep) := by
  have hc := h c (List.mem_cons_self ..)
  simp only [magic, specials, List.mem_cons, not_or] at hc
  simp [patternItem, singleItem, classEnd, suffixAt_literal h.tail, literalItem, L_ESC, hc]

theorem patternItems_literal (h : Literal sep) (hn : sep.length ≤ n) :
    patternItems n sep = sep.map literalItem := by
  induction sep generalizing n with
  | nil => cases n with
    | zero => rfl
    | succ n => rfl
  | cons c t ih =>
    obtain ⟨n, rfl⟩ := Nat.exists_eq_succ_of_ne_zero (Nat.ne_zero_of_lt hn)
    rw [patternItems, patternItem_literal h, ih h.tail (Nat.le_of_succ_le_succ hn)]
    rfl

theorem singlematch_eq (s : List UInt8) (i : ℕ) (cls : PatternClass) :
    singlematch s i cls = ((s.drop i).head?.map fun c => cls.test c).getD false := by
  rw [singlematch, List.head?_drop]

/-- Literal items match where the characters stand. -/
theorem doMatch_literal (sep : List UInt8) (d i : ℕ) (caps : List Capture) :
    doMatch s (sep.map literalItem) d i caps
      = if sep <+: s.drop i then .ok (some (i + sep.length, caps)) else .ok none := by
  induction sep generalizing i with
  | nil => rw [if_pos List.nil_prefix]; rfl
  | cons c t ih =>
    rw [List.map_cons, literalItem, doMatch, ih, singlematch_eq, ← List.drop_drop]
    rw [show i + 1 + t.length = i + (c :: t).length from by rw [List.length_cons]; omega]
    cases s.drop i with
    | nil => simp
    | cons x r => by_cases hx : c = x <;> simp [PatternClass.test, hx, List.cons_prefix_cons]

/-! ## The pattern of `string.split` -/

/-- What `(.-)` before literal characters consists of. -/
def splitItems (sep : List UInt8) : List PatternItem :=
  .openCapture :: .single .any .minus :: .closeCapture :: sep.map literalItem

theorem patternItems_split (h : Literal sep) :
    patternItems (4 + sep.length) ([ch '(', ch '.', ch '-', ch ')'] ++ sep) = splitItems sep := by
  rw [splitItems, ← patternItems_literal h (Nat.le_succ sep.length), Nat.add_comm]
  rfl

/-- The shortest repetition that lets the rest match. -/
theorem minExpand_any {k : ℕ → Matched} {t : List UInt8} {r : ℕ → ℕ × List Capture}
    (hk : ∀ n, k (i + n) = if sep <+: t.drop n then .ok (some (r n)) else .ok none) :
    minExpand .any k t i = .ok ((Substring.search sep t).map r) := by
  have hki := hk 0
  rw [Nat.add_zero, List.drop_zero] at hki
  induction t generalizing i r with
  | nil =>
    rw [minExpand, hki]
    by_cases hp : sep <+: []
    · rw [if_pos hp, Substring.search_zero hp]
      rfl
    · rw [if_neg hp, Substring.search_nil hp]
      rfl
  | cons c t ih =>
    rw [minExpand, hki]
    by_cases hp : sep <+: c :: t
    · rw [if_pos hp, Substring.search_zero hp]
      rfl
    · have hstep : ∀ n, k (i + 1 + n) = if sep <+: t.drop n then .ok (some (r (n + 1))) else .ok none := by
        intro n
        rw [Nat.add_right_comm]
        exact hk (n + 1)
      rw [if_neg hp, Substring.search_cons hp, Option.map_map]
      exact ih hstep (hstep 0)

/-- The text up to the separator is captured. -/
theorem doMatch_split (d : ℕ) :
    doMatch s (splitItems sep) (d + 3) i []
      = .ok ((Substring.search sep (s.drop i)).map fun k => (i + k + sep.length, [⟨i, .closed k⟩])) := by
  have hclose : ∀ d k, doMatch s (.closeCapture :: sep.map literalItem) (d + 1) (i + k) [⟨i, .unfinished⟩]
      = if sep <+: (s.drop i).drop k then .ok (some (i + k + sep.length, [⟨i, .closed k⟩])) else .ok none := by
    intro d k
    rw [List.drop_drop, ← doMatch_literal sep d (i + k) [⟨i, .closed k⟩], doMatch]
    have hk : closeAt (i + k) ⟨i, .unfinished⟩ = ⟨i, .closed k⟩ := by rw [closeAt, Nat.add_sub_cancel_left]
    show doMatch s _ d (i + k) [closeAt (i + k) ⟨i, .unfinished⟩] = _
    rw [hk]
  have hexpand := minExpand_any (k := fun j => nested (d + 2) fun d =>
    doMatch s (.closeCapture :: sep.map literalItem) d j [⟨i, .unfinished⟩]) (fun k => hclose d k)
  show doMatch s (.single .any .minus :: .closeCapture :: sep.map literalItem) (d + 2) i [⟨i, .unfinished⟩] = _
  rw [doMatch, ← hexpand]
  split
  · rfl
  · rename_i hend
    have hnil : s.drop i = [] := by
      rw [singlematch_eq] at hend
      cases hdrop : s.drop i with
      | nil => rfl
      | cons c t => simp [hdrop, PatternClass.test] at hend
    have hlong := hclose (d + 1) 0
    have hshort := hclose d 0
    rw [Nat.add_zero] at hlong hshort
    rw [hnil, minExpand]
    exact hlong.trans hshort.symm

/-- **The pattern finds the text up to the leftmost separator.** -/
theorem findFrom_split (hn : i + n = s.length) :
    findFrom s (splitItems sep) false n i
      = .ok ((Substring.search sep (s.drop i)).map fun k =>
          ⟨i + 1, i + k + sep.length, [.string ((s.drop i).take k)]⟩) := by
  induction n generalizing i with
  | zero =>
    have hmatch : nested MAXCCALLS (fun d => doMatch s (splitItems sep) d i []) = _ := doMatch_split 196
    rw [findFrom, hmatch]
    cases Substring.search sep (s.drop i) with
    | none => rfl
    | some k => rfl
  | succ n ih =>
    have hmatch : nested MAXCCALLS (fun d => doMatch s (splitItems sep) d i []) = _ := doMatch_split 196
    rw [findFrom, hmatch]
    cases hsearch : Substring.search sep (s.drop i) with
    | some k => rfl
    | none =>
      have hnext : Substring.search sep (s.drop (i + 1)) = none := by
        rw [Substring.search_eq_none] at hsearch ⊢
        intro h
        exact hsearch (h.trans (s.drop_suffix_drop_left (Nat.le_succ i)).isInfix)
      show findFrom s (splitItems sep) false n (i + 1) = _
      rw [ih (by omega), hnext]
      rfl

theorem stringFind_split (h : Literal sep) (hi : i ≤ s.length) :
    stringFind s ([ch '(', ch '.', ch '-', ch ')'] ++ sep) (i + 1)
      = .ok ((Substring.search sep (s.drop i)).map fun k =>
          ⟨i + 1, i + k + sep.length, [.string ((s.drop i).take k)]⟩) := by
  have hinit : (max 1 (posrelat ((i : ℤ) + 1) s.length) - 1).toNat = i := by
    rw [posrelat, if_pos (by omega)]
    omega
  rw [← findFrom_split (Nat.add_sub_cancel' hi), ← patternItems_split h, stringFind]
  simp only [hinit]
  rw [if_neg (not_lt.2 hi), Nat.add_comm 4]
  rfl

end Qsf
