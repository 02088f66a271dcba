import Qsf.Proof.LuaPattern
import Qsf.Spec.StringExt

/-!
# Extensions of `string`: splitting, joining, prefixes and suffixes

* `split_join`: at a literal separator, `string.split` gives the pieces between its
  occurrences.
* `split_ends_iff`: for any separator, it ends when each match ends ahead of where the search
  began.
* `starts_ends_iff`: what `string.startswith` and `string.endswith` test.
-/

set_option autoImplicit false

namespace Qsf

variable {find : List UInt8 → List UInt8 → ℤ → Except LuaRaise (Option Found)} {F : Finder}
  {s sep str patt : List UInt8} {r : List LuaValue} {m : Found} {b fuel : ℕ}

/-! ## One round of the loop -/

theorem splitLoop_done (hb : s.length < b) : splitLoop find s (some patt) (fuel + 1) b r = .ok r := by
  rw [splitLoop, if_neg (not_le.2 hb)]

theorem splitLoop_error (hb : b ≤ s.length) {e : LuaRaise} (hf : find s patt (b + 1) = .error e) :
    splitLoop find s (some patt) (fuel + 1) b r = .error (.raises e) := by
  rw [splitLoop, if_pos hb]
  simp only [hf]

theorem splitLoop_none (hb : b ≤ s.length) (hf : find s patt (b + 1) = .ok none) :
    splitLoop find s (some patt) (fuel + 1) b r
      = splitLoop find s (some patt) fuel (s.length + 1) (r ++ [.string (s.drop b)]) := by
  rw [splitLoop, if_pos hb]
  simp only [hf]

theorem splitLoop_some (hb : b ≤ s.length) (hf : find s patt (b + 1) = .ok (some m)) :
    splitLoop find s (some patt) (fuel + 1) b r
      = splitLoop find s (some patt) fuel m.last (r ++ [m.captures.headD (.string (s.drop b))]) := by
  rw [splitLoop, if_pos hb]
  simp only [hf]

/-! ## Splitting at a literal -/

theorem stringFind_splitPattern (hlit : Literal sep) (hb : b ≤ s.length) :
    stringFind s (splitPattern (some sep)) (b + 1)
      = .ok ((Substring.search sep (s.drop b)).map fun k =>
          ⟨b + 1, b + k + sep.length, [.string ((s.drop b).take k)]⟩) :=
  stringFind_split hlit hb

/-- **The loop appends the pieces.** -/
theorem splitLoop_pieces (hlit : Literal sep) {t : List UInt8} {ps : List (List UInt8)}
    (hps : Substring.Pieces sep t ps) (ht : s.drop b = t) (hb : b ≤ s.length) (hfuel : ps.length < fuel) :
    splitLoop stringFind s (some (splitPattern (some sep))) fuel b r = .ok (r ++ ps.map .string) := by
  induction hps generalizing b r fuel with
  | last hnone =>
    subst ht
    obtain ⟨fuel, rfl⟩ : ∃ n, fuel = n + 2 := ⟨fuel - 2, by rw [List.length_singleton] at hfuel; omega⟩
    have hfind := stringFind_splitPattern hlit hb
    rw [hnone] at hfind
    rw [splitLoop_none hb hfind, splitLoop_done (Nat.lt_succ_self _)]
    rfl
  | @cons t k ps hsome _ ih =>
    subst ht
    obtain ⟨fuel, rfl⟩ := Nat.exists_eq_succ_of_ne_zero (Nat.ne_zero_of_lt hfuel)
    have hfind := stringFind_splitPattern hlit hb
    rw [hsome] at hfind
    have hlen := (Substring.prefix_of_search hsome).length_le
    have hle := Substring.search_le_length hsome
    rw [List.length_drop] at hle
    rw [List.length_drop, List.length_drop] at hlen
    rw [splitLoop_some hb hfind]
    rw [ih _ _ (Nat.lt_of_succ_lt_succ hfuel), List.map_cons, List.append_assoc]
    · rfl
    · show s.drop (b + k + sep.length) = _
      rw [List.drop_drop, Nat.add_assoc]
    · show b + k + sep.length ≤ s.length
      omega

/-- `table.concat` of strings. -/
theorem concatFrom_strings (toLstring : LuaValue → Option (List UInt8)) (delim : List UInt8) (i : ℕ)
    (ps : List (List UInt8)) :
    concatFrom toLstring delim i (ps.map .string) = .ok (delim.intercalate ps) := by
  induction ps generalizing i with
  | nil => rfl
  | cons x t ih =>
    cases t with
    | nil => rw [List.intercalate_singleton]; rfl
    | cons y t =>
      have hrest := ih (i + 1)
      rw [List.map_cons] at hrest
      rw [List.map_cons, List.map_cons, concatFrom, hrest, List.intercalate_cons_cons]
      rfl

/-- **Splitting at a literal inverts joining.** -/
theorem split_join (toLstring : LuaValue → Option (List UInt8)) (s sep : List UInt8) (hne : sep ≠ [])
    (hlit : ∀ c ∈ sep, c ∉ magic) :
    ∃ pieces : List (List UInt8), Returns (stringSplit stringFind s (some sep)) (pieces.map .string) ∧
      stringJoin toLstring (pieces.map .string) (some sep) = .ok s ∧
      (∀ x ∈ pieces, ¬ sep <:+: x) ∧ pieces.length = Substring.occurrences sep 0 s + 1 := by
  obtain ⟨ps, hps⟩ := Substring.exists_pieces hne s
  refine ⟨ps, ⟨ps.length + 1, ?_⟩, ?_, hps.not_infix hne, hps.length hne⟩
  · intro fuel hfuel
    rw [stringSplit, if_neg (by rwa [Option.some_inj])]
    exact splitLoop_pieces hlit hps List.drop_zero (Nat.zero_le _) hfuel
  · rw [stringJoin, concatFrom_strings]
    show Except.ok (sep.intercalate ps) = _
    rw [hps.join]

theorem split_join_two : ∃ pieces : List (List UInt8),
    Returns (stringSplit stringFind [ch 'a', ch ',', ch ',', ch ','] (some [ch ',', ch ',']))
      (pieces.map .string) ∧
    stringJoin (fun _ => none) (pieces.map .string) (some [ch ',', ch ','])
      = .ok [ch 'a', ch ',', ch ',', ch ','] ∧
    (∀ x ∈ pieces, ¬ [ch ',', ch ','] <:+: x) ∧ pieces.length = 2 :=
  split_join (fun _ => none) [ch 'a', ch ',', ch ',', ch ','] [ch ',', ch ','] (by decide)
    (literal_of_all (by decide))

/-! ## When splitting ends -/

/-- The positions from which a scan from left to right searches. -/
inductive Scan (F : Finder) (s patt : List UInt8) : ℕ → Prop
  | start : Scan F s patt 0
  | next {b : ℕ} {m : Found} (h : Scan F s patt b) (hb : b ≤ s.length)
      (hm : F.find s patt (b + 1) = .ok (some m)) : Scan F s patt m.last

/-- Each search raises no error, and a match ends ahead of where the search began. -/
def Advances (F : Finder) (s patt : List UInt8) : Prop :=
  ∀ b, Scan F s patt b → b ≤ s.length → ∃ r, F.find s patt (b + 1) = .ok r ∧ ∀ m ∈ r, b < m.last

/-- The loop ends, from position `b` on. -/
def Ends (F : Finder) (s patt : List UInt8) (b : ℕ) (r : List LuaValue) : Prop :=
  ∃ r', Returns (fun fuel => splitLoop F.find s (some patt) fuel b r) r'

theorem ends_done (hb : s.length < b) : Ends F s patt b r := by
  refine ⟨r, 1, ?_⟩
  intro fuel hfuel
  obtain ⟨fuel, rfl⟩ := Nat.exists_eq_succ_of_ne_zero (Nat.ne_zero_of_lt hfuel)
  exact splitLoop_done hb

theorem not_ends_error (hb : b ≤ s.length) {e : LuaRaise} (hf : F.find s patt (b + 1) = .error e) :
    ¬ Ends F s patt b r := by
  rintro ⟨r', n, hr⟩
  have hraise := hr (n + 1) (Nat.le_succ n)
  simp only [splitLoop_error hb hf] at hraise
  cases hraise

/-- The rounds after the next are the rounds of the rest. -/
theorem ends_next (hb : b ≤ s.length) (hf : F.find s patt (b + 1) = .ok (some m)) :
    Ends F s patt b r ↔ Ends F s patt m.last (r ++ [m.captures.headD (.string (s.drop b))]) := by
  constructor
  · rintro ⟨r', n, hr⟩
    refine ⟨r', n, ?_⟩
    intro fuel hfuel
    have hround := hr (fuel + 1) (Nat.le_succ_of_le hfuel)
    simp only [splitLoop_some hb hf] at hround
    exact hround
  · rintro ⟨r', n, hr⟩
    refine ⟨r', n + 1, ?_⟩
    intro fuel hfuel
    obtain ⟨fuel, rfl⟩ := Nat.exists_eq_succ_of_ne_zero (Nat.ne_zero_of_lt hfuel)
    simp only [splitLoop_some hb hf]
    exact hr fuel (Nat.le_of_succ_le_succ hfuel)

theorem ends_last (hb : b ≤ s.length) (hf : F.find s patt (b + 1) = .ok none) : Ends F s patt b r := by
  refine ⟨r ++ [.string (s.drop b)], 2, ?_⟩
  intro fuel hfuel
  obtain ⟨fuel, rfl⟩ : ∃ n, fuel = n + 2 := ⟨fuel - 2, by omega⟩
  simp only [splitLoop_none hb hf, splitLoop_done (Nat.lt_succ_self s.length)]

/-- A match that ends where the search began is found again. -/
theorem splitLoop_stuck (hb : b ≤ s.length) (hf : find s patt (b + 1) = .ok (some m)) (hm : m.last = b) :
    splitLoop find s (some patt) fuel b r = .error .unfinished := by
  induction fuel generalizing r with
  | zero => rw [splitLoop]
  | succ fuel ih =>
    rw [splitLoop_some hb hf, hm]
    exact ih

theorem not_ends_stuck (hb : b ≤ s.length) (hf : F.find s patt (b + 1) = .ok (some m)) (hm : m.last = b) :
    ¬ Ends F s patt b r := by
  rintro ⟨r', n, hr⟩
  have hstuck := hr n (le_refl n)
  simp only [splitLoop_stuck hb hf hm] at hstuck
  cases hstuck

theorem ends_of_advances (hadv : Advances F s patt) (hscan : Scan F s patt b) : Ends F s patt b r := by
  -- the rest of the subject gets shorter
  induction hn : s.length + 1 - b using Nat.strong_induction_on generalizing b r with
  | _ n ih =>
    rcases Nat.lt_or_ge s.length b with hlong | hb
    · exact ends_done hlong
    · obtain ⟨found, hf, hahead⟩ := hadv b hscan hb
      cases found with
      | none => exact ends_last hb hf
      | some m =>
        have hlt := hahead m rfl
        exact (ends_next hb hf).2 (ih _ (by omega) (hscan.next hb hf) rfl)

theorem advances_of_ends (hends : Ends F s patt 0 r) : Advances F s patt := by
  -- the loop ends from each position of the scan
  have hall : ∀ b, Scan F s patt b → ∃ r, Ends F s patt b r := by
    intro b hscan
    induction hscan with
    | start => exact ⟨r, hends⟩
    | next _ hb hf ih =>
      obtain ⟨r, hr⟩ := ih
      exact ⟨_, (ends_next hb hf).1 hr⟩
  intro b hscan hb
  obtain ⟨r, hr⟩ := hall b hscan
  cases hf : F.find s patt (b + 1) with
  | error e => exact absurd hr (not_ends_error hb hf)
  | ok found =>
    refine ⟨found, rfl, ?_⟩
    rintro m rfl
    have hfirst := F.le_first hf
    have hlast := F.first_le_last hf
    by_contra hle
    exact not_ends_stuck hb hf (by omega) hr

theorem not_returns_empty (find : List UInt8 → List UInt8 → ℤ → Except LuaRaise (Option Found))
    (s : List UInt8) :
    ¬ ∃ r, Returns (stringSplit find s (some [])) r := by
  rintro ⟨r, n, hr⟩
  have hraise := hr (n + 1) (Nat.le_succ n)
  rw [stringSplit, if_pos rfl, splitLoop, if_pos (Nat.zero_le _)] at hraise
  cases hraise

/-- **Splitting ends when each match ends ahead.** -/
theorem split_ends_iff (F : Finder) (s : List UInt8) (sep : Option (List UInt8)) :
    (∃ r, Returns (stringSplit F.find s sep) r) ↔ sep ≠ some [] ∧ Advances F s (splitPattern sep) := by
  by_cases hsep : sep = some []
  · subst hsep
    simp only [not_returns_empty, ne_eq, not_true, false_and]
  · have hloop : (∃ r, Returns (stringSplit F.find s sep) r) ↔ Ends F s (splitPattern sep) 0 [] := by
      unfold Ends Returns stringSplit
      simp only [if_neg hsep]
    rw [hloop]
    constructor
    · intro hends
      exact ⟨hsep, advances_of_ends hends⟩
    · rintro ⟨-, hadv⟩
      exact ends_of_advances hadv .start

/-- The empty separator, and a pattern that matches the empty string. -/
theorem split_never_ends :
    (¬ ∃ r, Returns (stringSplit luaFinder.find [ch 'a'] (some [])) r) ∧
    ¬ ∃ r, Returns (stringSplit luaFinder.find [ch 'a'] (some [ch 'x', ch '*'])) r := by
  refine ⟨not_returns_empty _ _, ?_⟩
  rintro ⟨r, n, hr⟩
  have hfind : stringFind [ch 'a'] (splitPattern (some [ch 'x', ch '*'])) ((0 : ℕ) + 1)
      = .ok (some ⟨1, 0, [.string []]⟩) := by decide
  have hstuck := hr n (le_refl n)
  rw [stringSplit, if_neg (by decide), show luaFinder.find = stringFind from rfl,
    splitLoop_stuck (Nat.zero_le _) hfind rfl] at hstuck
  cases hstuck

/-! ## Prefixes and suffixes -/

theorem foundAt_literal (hlit : Literal sep) (hb : b ≤ s.length) (n : ℤ) :
    foundAt stringFind s sep (b + 1) n
      = .ok (.boolean ((Substring.search sep (s.drop b)).map (fun k => ((b + k + 1 : ℕ) : ℤ)) == some n)) := by
  rw [foundAt, stringFind_literal hlit hb, Except.map, Option.map_map]
  rfl

theorem startswith_iff (hlit : Literal sep) :
    stringStartswith stringFind s sep = .ok (.boolean true) ↔ sep <+: s := by
  have hfound := foundAt_literal hlit (Nat.zero_le s.length) 1
  rw [Nat.cast_zero, zero_add, List.drop_zero] at hfound
  rw [stringStartswith, hfound]
  constructor
  · intro h
    cases hsearch : Substring.search sep s with
    | none => simp [hsearch] at h
    | some k =>
      simp [hsearch] at h
      subst h
      exact Substring.prefix_of_search hsearch
  · intro h
    rw [Substring.search_zero h]
    rfl

/-- `sep` repeats one character, and `s` ends in more of it. -/
def EndsInMore (s sep : List UInt8) : Prop :=
  ∃ c k, 0 < k ∧ sep = List.replicate k c ∧ List.replicate (k + 1) c <:+ s

theorem EndsInMore.suffix (h : EndsInMore s sep) : sep <:+ s := by
  obtain ⟨c, k, -, rfl, hsuffix⟩ := h
  exact (List.suffix_cons c (List.replicate k c)).trans hsuffix

/-- The suffix occurs one position earlier as well. -/
theorem prefix_iff_endsInMore (hne : sep ≠ []) {c : UInt8} (hb : s.drop b = c :: sep) :
    sep <+: c :: sep ↔ EndsInMore s sep := by
  have hsuffix : c :: sep <:+ s := hb ▸ List.drop_suffix b s
  rw [Substring.prefix_cons_self]
  constructor
  · intro h
    refine ⟨c, sep.length, List.length_pos_of_ne_nil hne, h, ?_⟩
    rwa [List.replicate_succ, ← h]
  · rintro ⟨d, k, -, hsep, hmore⟩
    have heq : List.replicate (k + 1) d = c :: sep := by
      apply (List.suffix_of_suffix_length_le hmore hsuffix _).eq_of_length
      · rw [hsep, List.length_cons, List.length_replicate, List.length_replicate]
      · rw [hsep, List.length_cons, List.length_replicate, List.length_replicate]
    rw [List.replicate_succ, List.cons.injEq] at heq
    rw [← heq.1, ← heq.2, List.length_replicate]

/-- The search starts one position before the suffix. -/
theorem endswith_found (hlit : Literal sep) (hne : sep ≠ []) {c : UInt8} {t : List UInt8}
    (hb : s.drop b = c :: t) (hlen : t.length = sep.length) :
    stringEndswith stringFind s sep = .ok (.boolean true) ↔ sep = t ∧ ¬ sep <+: c :: t := by
  have hdrop := congrArg List.length hb
  rw [List.length_drop, List.length_cons, hlen] at hdrop
  have hinit : (s.length : ℤ) - sep.length = b + 1 := by omega
  have hone : Substring.search sep (c :: t) = some 1 ↔ sep = t ∧ ¬ sep <+: c :: t := by
    rw [Substring.search_eq_some]
    constructor
    · rintro ⟨-, hp, hmin⟩
      exact ⟨List.IsPrefix.eq_of_length hp hlen.symm, hmin 0 one_pos⟩
    · rintro ⟨heq, hnot⟩
      refine ⟨Nat.le_add_left 1 _, heq ▸ List.prefix_refl _, ?_⟩
      intro j hj
      obtain rfl : j = 0 := Nat.lt_one_iff.1 hj
      exact hnot
  rw [← hone, stringEndswith, if_neg hne]
  simp only [hinit]
  rw [if_pos (by omega), foundAt_literal hlit (by omega), hb]
  cases Substring.search sep (c :: t) with
  | none => simp
  | some k => simp

/-- **Of the suffixes, those that repeat one character are missed when there is more of it.** -/
theorem endswith_iff (hlit : Literal sep) (hne : sep ≠ []) :
    stringEndswith stringFind s sep = .ok (.boolean true) ↔ sep <:+ s ∧ ¬ EndsInMore s sep := by
  rcases lt_trichotomy s.length sep.length with hshort | heq | hlong
  · have hnot : ¬ sep <:+ s := fun h => absurd h.length_le (not_le.2 hshort)
    rw [stringEndswith, if_neg hne]
    simp only
    rw [if_neg (by omega)]
    simp [hnot]
  · -- the search starts at 0, which is taken for 1
    have hfound := startswith_iff (s := s) hlit
    have hzero : stringEndswith stringFind s sep = stringStartswith stringFind s sep := by
      rw [stringEndswith, if_neg hne, heq]
      simp only [sub_self, le_refl, if_true]
      rfl
    have hmore : ¬ EndsInMore s sep := by
      rintro ⟨c, k, -, rfl, hsuffix⟩
      have := hsuffix.length_le
      rw [List.length_replicate] at this heq
      omega
    rw [hzero, hfound]
    constructor
    · intro h
      exact ⟨h.eq_of_length heq.symm ▸ List.suffix_refl _, hmore⟩
    · rintro ⟨h, -⟩
      exact h.eq_of_length heq.symm ▸ List.prefix_refl _
  · obtain ⟨c, t, ht⟩ : ∃ c t, s.drop (s.length - sep.length - 1) = c :: t := by
      apply List.exists_cons_of_ne_nil
      rw [ne_eq, List.drop_eq_nil_iff]
      omega
    have htail : s.drop (s.length - sep.length) = t := by
      have htail := congrArg (List.drop 1) ht
      rwa [List.drop_drop, Nat.sub_add_cancel (by omega)] at htail
    have hlen : t.length = sep.length := by
      rw [← htail, List.length_drop]
      omega
    rw [endswith_found hlit hne ht hlen, List.suffix_iff_eq_drop, htail]
    apply and_congr_right
    rintro rfl
    exact not_congr (prefix_iff_endsInMore hne ht)

/-- **Prefixes are right, and suffixes are unless the string ends in more of the same.** -/
theorem starts_ends_iff (str s : List UInt8) (hlit : ∀ c ∈ s, c ∉ magic) :
    ((stringStartswith stringFind str s = .ok (.boolean true) ↔ s <+: str) ∧
      (stringEndswith stringFind str s = .ok (.boolean true) ↔ s <:+ str)) ↔
    ¬ ∃ c k, 0 < k ∧ s = List.replicate k c ∧ List.replicate (k + 1) c <:+ str := by
  have hstarts := startswith_iff (s := str) hlit
  rw [and_iff_right hstarts]
  by_cases hne : s = []
  · subst hne
    have hmore : ¬ EndsInMore str [] := by
      rintro ⟨c, k, hk, hnil, -⟩
      have := congrArg List.length hnil
      rw [List.length_replicate, List.length_nil] at this
      omega
    have htrue : stringEndswith stringFind str [] = .ok (.boolean true) := rfl
    simp only [htrue, List.nil_suffix, true_iff]
    exact hmore
  · rw [endswith_iff hlit hne]
    have hsuffix : EndsInMore str s → s <:+ str := EndsInMore.suffix
    show (s <:+ str ∧ ¬ EndsInMore str s ↔ s <:+ str) ↔ ¬ EndsInMore str s
    tauto

theorem starts_ends_iff_two :
    (stringStartswith stringFind [ch 'b', ch 'a', ch 'b'] [ch 'a', ch 'b'] = .ok (.boolean true) ↔
      [ch 'a', ch 'b'] <+: [ch 'b', ch 'a', ch 'b']) ∧
    (stringEndswith stringFind [ch 'b', ch 'a', ch 'b'] [ch 'a', ch 'b'] = .ok (.boolean true) ↔
      [ch 'a', ch 'b'] <:+ [ch 'b', ch 'a', ch 'b']) := by
  apply (starts_ends_iff [ch 'b', ch 'a', ch 'b'] [ch 'a', ch 'b'] (literal_of_all (by decide))).2
  rintro ⟨c, k, -, hrep, -⟩
  have hk := congrArg List.length hrep
  rw [List.length_replicate] at hk
  subst hk
  have ha : ch 'a' = c := congrArg (fun l => l.headD 0) hrep
  have hb : ch 'b' = c := congrArg (fun l => l.getLastD 0) hrep
  exact absurd (ha.trans hb.symm) (by decide)

theorem endswith_misses :
    ¬ (stringEndswith stringFind [ch 'a', ch 'a', ch 'a'] [ch 'a', ch 'a'] = .ok (.boolean true) ↔
      [ch 'a', ch 'a'] <:+ [ch 'a', ch 'a', ch 'a']) := by
  decide

end Qsf
