import Qsf.Proof.LuaPattern
import Qsf.Spec.LuaString
import Mathlib.Data.Nat.Digits.Lemmas

/-!
# Strings of Lua: proofs

* `tonumberBase_formatBase`, `lStr2int_formatInt`: a numeral is read as the number it was made of.
* `gsubFrom_none`: what a pattern does not match is not changed.
-/

set_option autoImplicit false

namespace Qsf

/-! ## Numerals -/

section Numerals

variable {b n d : ℕ}

theorem digit_facts : ∀ d < 16, digitValue (digitChar d) = d ∧ isalnum (digitChar d) = true ∧
    isspace (digitChar d) = false ∧ digitChar d ≠ ch '-' ∧ digitChar d ≠ ch '+' ∧ digitChar d ≠ ch 'x' ∧
    digitChar d ≠ ch 'X' ∧ (d < 10 → isdigit (digitChar d) = true) := by
  decide +kernel

theorem numeralValue_digits {l : List ℕ} (hl : ∀ d ∈ l, d < 16) :
    numeralValue b (l.reverse.map digitChar) = UInt64.ofNat (Nat.ofDigits b l) := by
  induction l with
  | nil => rfl
  | cons d l ih =>
    have hd := (digit_facts d (hl d List.mem_cons_self)).1
    have htail := ih fun e he => hl e (List.mem_cons_of_mem d he)
    unfold numeralValue at htail ⊢
    rw [List.reverse_cons, List.map_append, List.foldl_append, htail, Nat.ofDigits_cons]
    show UInt64.ofNat _ * UInt64.ofNat b + UInt64.ofNat (digitValue (digitChar d)) = _
    rw [hd, UInt64.ofNat_add, UInt64.ofNat_mul, UInt64.add_comm, UInt64.mul_comm]

/-- The digits of a numeral, the lowest first. -/
def numeralDigits (b n : ℕ) : List ℕ := if n = 0 then [0] else Nat.digits b n

theorem formatBase_eq (b n : ℕ) : formatBase b n = (numeralDigits b n).reverse.map digitChar := by
  unfold formatBase numeralDigits
  split <;> rfl

theorem numeralDigits_lt (hb : 1 < b) (hd : d ∈ numeralDigits b n) : d < b := by
  unfold numeralDigits at hd
  split at hd
  · rw [List.mem_singleton.1 hd]
    omega
  · exact Nat.digits_lt_base hb hd

theorem ofDigits_numeralDigits : Nat.ofDigits b (numeralDigits b n) = n := by
  unfold numeralDigits
  split
  next h => rw [h, Nat.ofDigits_singleton]
  next => exact Nat.ofDigits_digits b n

theorem numeralDigits_ne_nil : numeralDigits b n ≠ [] := by
  unfold numeralDigits
  split
  next => exact List.cons_ne_nil _ _
  next h => exact Nat.digits_ne_nil_iff_ne_zero.2 h

/-- Every character of a numeral is a digit. -/
theorem mem_formatBase (hb : 1 < b) {c : UInt8} (hc : c ∈ formatBase b n) : ∃ d < b, c = digitChar d := by
  rw [formatBase_eq, List.mem_map] at hc
  obtain ⟨d, hd, rfl⟩ := hc
  exact ⟨d, numeralDigits_lt hb (List.mem_reverse.1 hd), rfl⟩

theorem formatBase_ne_nil : formatBase b n ≠ [] := by
  rw [formatBase_eq]
  intro h
  exact numeralDigits_ne_nil (List.reverse_eq_nil_iff.1 (List.map_eq_nil_iff.1 h))

theorem numeralValue_formatBase (hb : 1 < b) (hb' : b ≤ 16) : numeralValue b (formatBase b n) = UInt64.ofNat n := by
  rw [formatBase_eq, numeralValue_digits, ofDigits_numeralDigits]
  exact fun d hd => (numeralDigits_lt hb hd).trans_le hb'

/-- A numeral has no sign and no blanks in front. -/
theorem signed_formatBase (hb : 1 < b) (hb' : b ≤ 16) :
    signed ((formatBase b n).dropWhile isspace) = (false, formatBase b n) := by
  cases h : formatBase b n with
  | nil => exact absurd h formatBase_ne_nil
  | cons c t =>
    obtain ⟨d, hd, rfl⟩ := mem_formatBase hb (c := c) (n := n) (h ▸ List.mem_cons_self)
    obtain ⟨-, -, hspace, hminus, hplus, -⟩ := digit_facts d (hd.trans_le hb')
    rw [List.dropWhile_cons_of_neg (by rw [hspace]; exact Bool.false_ne_true), signed, if_neg hminus, if_neg hplus]

theorem takeWhile_formatBase {p : UInt8 → Bool} (hp : ∀ c ∈ formatBase b n, p c = true) :
    (formatBase b n).takeWhile p = formatBase b n ∧ (formatBase b n).dropWhile p = [] :=
  ⟨List.takeWhile_eq_self_iff.2 hp, List.dropWhile_eq_nil_iff.2 hp⟩

/-- **A numeral is read as the number it was made of.** -/
theorem tonumberBase_formatBase (hb : 1 < b) (hb' : b ≤ 16) :
    tonumberBase (formatBase b n) b = some (Int64.ofNat n) := by
  obtain ⟨htake, hdrop⟩ := takeWhile_formatBase (b := b) (n := n) (p := isalnum) (by
    intro c hc
    obtain ⟨d, hd, rfl⟩ := mem_formatBase hb hc
    exact (digit_facts d (hd.trans_le hb')).2.1)
  have hall : (formatBase b n).all (digitValue · < b) = true := by
    rw [List.all_eq_true]
    intro c hc
    obtain ⟨d, hd, rfl⟩ := mem_formatBase hb hc
    rw [(digit_facts d (hd.trans_le hb')).1]
    exact decide_eq_true hd
  unfold tonumberBase
  rw [signed_formatBase hb hb']
  dsimp only
  rw [htake, hdrop, if_neg, numeralValue_formatBase hb hb']
  · rfl
  · rintro (h | h | h)
    · exact formatBase_ne_nil h
    · exact h hall
    · exact h rfl

/-- A decimal numeral with a sign or without, read by `l_str2int`. -/
theorem lStr2int_decimal {s : List UInt8} {neg : Bool} (h : signed (s.dropWhile isspace) = (neg, formatBase 10 n)) :
    lStr2int s = some (signedValue neg (UInt64.ofNat n)) := by
  have hmem : ∀ c ∈ formatBase 10 n, isdigit c = true ∧ c ≠ ch 'x' ∧ c ≠ ch 'X' := by
    intro c hc
    obtain ⟨d, hd, rfl⟩ := mem_formatBase (by decide) hc
    obtain ⟨-, -, -, -, -, hx, hX, hdigit⟩ := digit_facts d (by omega)
    exact ⟨hdigit hd, hx, hX⟩
  obtain ⟨htake, hdrop⟩ := takeWhile_formatBase fun c hc => (hmem c hc).1
  have hhex : ¬ ((formatBase 10 n).head? = some (ch '0') ∧
      ((formatBase 10 n)[1]? = some (ch 'x') ∨ (formatBase 10 n)[1]? = some (ch 'X'))) := by
    rintro ⟨-, h | h⟩
    · exact (hmem _ (List.mem_of_getElem? h)).2.1 rfl
    · exact (hmem _ (List.mem_of_getElem? h)).2.2 rfl
  unfold lStr2int
  rw [h]
  dsimp only
  rw [if_neg hhex, if_neg hhex, if_neg hhex, htake, hdrop, if_neg, numeralValue_formatBase (by decide) (by decide)]
  rintro (h | h)
  · exact formatBase_ne_nil h
  · exact h rfl

theorem lStr2int_formatBase : lStr2int (formatBase 10 n) = some (Int64.ofNat n) :=
  lStr2int_decimal (signed_formatBase (by decide) (by decide))

/-- **An integer is read as it was printed.** -/
theorem lStr2int_formatInt (z : ℤ) : lStr2int (formatInt z) = some (Int64.ofInt z) := by
  unfold formatInt
  split
  next h =>
    have hneg : signed ((ch '-' :: formatBase 10 z.natAbs).dropWhile isspace) = (true, formatBase 10 z.natAbs) := rfl
    rw [lStr2int_decimal hneg]
    congr 1
    show (-Int64.ofNat z.natAbs) = _
    rw [← Int64.ofInt_eq_ofNat, ← Int64.ofInt_neg, Int.ofNat_natAbs_of_nonpos h.le, neg_neg]
  next h =>
    rw [lStr2int_formatBase, ← Int64.ofInt_eq_ofNat, Int.natAbs_of_nonneg (not_lt.1 h)]

end Numerals

/-! ## Substitution -/

section Gsub

variable {s : List UInt8} {σ : Type} {repl : σ → List LuaValue → Option (List UInt8) × σ} {p : List PatternItem}
  {anchor : Bool}

/-- **What does not match is not changed.** -/
theorem gsubFrom_none {i : ℕ} (h : ∀ j, i ≤ j → doMatch s p (MAXCCALLS - 1) j [] = .ok none) (n : ℕ) (st : σ) :
    gsubFrom s repl p anchor n i st = .ok (s.drop i, st) := by
  induction n generalizing i with
  | zero => rfl
  | succ n ih =>
    have hhere : (nested MAXCCALLS fun d => doMatch s p d i []) = .ok none := h i le_rfl
    rw [gsubFrom, hhere]
    show (if i < s.length then _ else _) = _
    by_cases hi : i < s.length
    · rw [if_pos hi]
      have hcut : (s.drop i).take 1 ++ s.drop (i + 1) = s.drop i := by
        rw [← List.drop_drop, List.take_append_drop]
      cases anchor with
      | true =>
        show Except.ok ((s.drop i).take 1 ++ s.drop (i + 1), st) = _
        rw [hcut]
      | false =>
        show (gsubFrom s repl p false n (i + 1) st >>= _) = _
        rw [ih fun j hj => h j (by omega)]
        show Except.ok ((s.drop i).take 1 ++ s.drop (i + 1), st) = _
        rw [hcut]
    · rw [if_neg hi, List.drop_eq_nil_of_le (not_lt.1 hi)]
      rfl

variable {cls : PatternClass} {f : UInt8 → Option (List UInt8)}

/-- **A class is replaced character by character.** -/
theorem gsubFrom_class (hrepl : ∀ st c, repl st [.string [c]] = (f c, st)) {i n : ℕ} (hn : s.length < i + n) (st : σ) :
    gsubFrom s repl [.single cls .once] false n i st =
      .ok ((s.drop i).flatMap fun c => if cls.test c then (f c).getD [c] else [c], st) := by
  -- on the positions from `i` on, each of which is matched or copied; the last one is behind the end
  induction n generalizing i with
  | zero =>
    rw [gsubFrom, List.drop_eq_nil_of_le (by omega)]
    rfl
  | succ n ih =>
    rw [gsubFrom]
    cases hdrop : s.drop i with
    | nil =>
      have hi : ¬ i < s.length := not_lt.2 (List.drop_eq_nil_iff.1 hdrop)
      have hone : singlematch s i cls = false := by
        rw [singlematch_eq, hdrop]
        rfl
      have hmatch : (nested MAXCCALLS fun d => doMatch s [.single cls .once] d i []) = .ok none := by
        show doMatch s [.single cls .once] _ i [] = _
        rw [doMatch, hone]
        rfl
      rw [hmatch]
      show (if i < s.length then _ else _) = _
      rw [if_neg hi]
      rfl
    | cons c t =>
      have hi : i < s.length := by
        by_contra hi
        rw [List.drop_eq_nil_of_le (not_lt.1 hi)] at hdrop
        cases hdrop
      have hone : singlematch s i cls = cls.test c := by
        rw [singlematch_eq, hdrop]
        rfl
      have hrest : s.drop (i + 1) = t := by rw [← List.drop_drop, hdrop, List.drop_one, List.tail_cons]
      have hnext := ih (i := i + 1) (by omega)
      rw [hrest] at hnext
      rw [List.flatMap_cons]
      cases htest : cls.test c with
      | true =>
        have hmatch : (nested MAXCCALLS fun d => doMatch s [.single cls .once] d i []) = .ok (some (i + 1, [])) := by
          show doMatch s [.single cls .once] _ i [] = _
          rw [doMatch, if_pos (hone.trans htest)]
          rfl
        have hcap : captured s i (i + 1) [] = .ok [.string [c]] := by
          rw [captured, if_pos rfl, hdrop, Nat.add_sub_cancel_left]
          rfl
        rw [hmatch]
        dsimp only [bind, Except.bind]
        rw [hcap]
        dsimp only
        rw [hrepl]
        dsimp only
        rw [if_pos (Nat.lt_succ_self i), if_neg Bool.false_ne_true, hnext, Nat.add_sub_cancel_left]
        rfl
      | false =>
        have hmatch : (nested MAXCCALLS fun d => doMatch s [.single cls .once] d i []) = .ok none := by
          show doMatch s [.single cls .once] _ i [] = _
          rw [doMatch, if_neg (by rw [hone, htest]; exact Bool.false_ne_true)]
        rw [hmatch]
        show (if i < s.length then _ else _) = _
        rw [if_pos hi]
        show (gsubFrom s repl _ false n (i + 1) st >>= _) = _
        rw [hnext]
        rfl

theorem stringGsub_class {pat : List UInt8} (hpat : patternItems pat.length pat = [.single cls .once])
    (hhead : pat.head? ≠ some (ch '^')) (hrepl : ∀ st c, repl st [.string [c]] = (f c, st)) (st : σ) :
    stringGsub s repl pat st = .ok (s.flatMap fun c => if cls.test c then (f c).getD [c] else [c], st) := by
  have hanchor : (pat.head? == some (ch '^')) = false := beq_eq_false_iff_ne.2 hhead
  unfold stringGsub
  rw [hanchor]
  dsimp only
  rw [if_neg Bool.false_ne_true, hpat]
  exact gsubFrom_class hrepl (by omega) st

end Gsub

end Qsf
