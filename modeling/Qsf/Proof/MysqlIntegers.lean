import Mathlib.Algebra.Order.Floor.Div
import Mathlib.Data.Int.ModEq
import Mathlib.Data.List.TakeWhile
import Qsf.Spec.Mysql

/-!
# Integer columns

Of MySQL's text protocol: a cell of an integer column holds the value in decimal, a cell
of a `BIT` column the bytes of the value, the highest first (`IntegerCell`). `pushvalue`
reads all of them with `atoll`.

* `atoll_decimal`: a decimal that is a `long long` is read as its value, a larger one is not.
* `atoll_bytes`: the bytes of a number that is not 0 are never read as its value.
* `pushvalue_integer_iff`: the cells that come out as their value.
-/

set_option autoImplicit false

namespace Qsf

/-! ## Numbers in a base -/

/-- A number read digit by digit lies between its first digits and the next number. -/
theorem foldl_base {base : ℕ} {digit : UInt8 → ℕ} (ds : List UInt8) (h : ∀ b ∈ ds, digit b < base)
    (n : ℕ) :
    n * base ^ ds.length ≤ ds.foldl (fun n b => base * n + digit b) n ∧
      ds.foldl (fun n b => base * n + digit b) n < (n + 1) * base ^ ds.length := by
  induction ds generalizing n with
  | nil => simp
  | cons b ds ih =>
    have hb := h b List.mem_cons_self
    obtain ⟨hlo, hhi⟩ := ih (fun c hc => h c (List.mem_cons_of_mem _ hc)) (base * n + digit b)
    have hpow : base ^ (b :: ds).length = base * base ^ ds.length := by
      rw [List.length_cons, pow_succ, Nat.mul_comm]
    rw [List.foldl_cons, hpow]
    constructor
    · calc n * (base * base ^ ds.length) = base * n * base ^ ds.length := by ring
        _ ≤ (base * n + digit b) * base ^ ds.length := Nat.mul_le_mul_right _ (by omega)
        _ ≤ _ := hlo
    · calc _ < (base * n + digit b + 1) * base ^ ds.length := hhi
        _ ≤ (base * n + base) * base ^ ds.length := Nat.mul_le_mul_right _ (by omega)
        _ = (n + 1) * (base * base ^ ds.length) := by ring

/-- An ASCII digit. -/
def isDigit (b : UInt8) : Bool := 48 ≤ b && b ≤ 57

theorem isDigit_iff (b : UInt8) : isDigit b = true ↔ 48 ≤ b.toNat ∧ b.toNat ≤ 57 := by
  simp [isDigit, UInt8.le_iff_toNat_le]

/-- The number that some digits stand for. -/
def decimal (ds : List UInt8) : ℕ := ds.foldl (fun n b => 10 * n + (b.toNat - 48)) 0

/-- The number that some bytes are, the highest first. -/
def bigEndian (data : List UInt8) : ℕ := data.foldl (fun n b => 256 * n + b.toNat) 0

/-! ## Cells -/

/-- `s` is the integer `v` in decimal, with or without a sign. -/
inductive DecimalText : List UInt8 → ℤ → Prop
  | plain {ds : List UInt8} : ds ≠ [] → (∀ b ∈ ds, isDigit b = true) → DecimalText ds (decimal ds)
  | plus {ds : List UInt8} : ds ≠ [] → (∀ b ∈ ds, isDigit b = true) → DecimalText (43 :: ds) (decimal ds)
  | minus {ds : List UInt8} : ds ≠ [] → (∀ b ∈ ds, isDigit b = true) → DecimalText (45 :: ds) (-(decimal ds : ℤ))

/-- The bits of an integer column. -/
def FieldType.width : FieldType → Option ℕ
  | .tiny => some 8
  | .short | .year => some 16
  | .int24 => some 24
  | .long => some 32
  | .longlong => some 64
  | _ => none

/-- **A cell of an integer column** with value `v`, signed or unsigned. -/
inductive IntegerCell : FieldType → ℤ → List UInt8 → Prop
  | text {type : FieldType} {w : ℕ} {v : ℤ} {data : List UInt8} : type.width = some w →
      (-2 ^ (w - 1) ≤ v ∧ v < 2 ^ (w - 1) ∨ 0 ≤ v ∧ v < 2 ^ w) → DecimalText data v → IntegerCell type v data
  | bit {n : ℕ} {data : List UInt8} : 1 ≤ n → n ≤ 64 → data.length = n ⌈/⌉ 8 → bigEndian data < 2 ^ n →
      IntegerCell .bit (bigEndian data) data

/-! ## `atoll` of decimals -/

variable {ds data s : List UInt8} {b : UInt8} {v : ℤ}

theorem toNat_pos (hb : b ≠ 0) : 1 ≤ b.toNat := by
  have hne : b.toNat ≠ 0 := fun h => hb (UInt8.toNat_inj.1 h)
  omega

theorem zero_notMem_digits (hds : ∀ b ∈ ds, isDigit b = true) : 0 ∉ ds := by
  intro hin
  exact absurd (hds 0 hin) (by decide)

theorem isspace_toNat (h : isspace b = true) : 9 ≤ b.toNat ∧ b.toNat ≤ 32 := by
  have hcases : b = 32 ∨ 9 ≤ b ∧ b ≤ 13 := by simpa [isspace] using h
  rcases hcases with rfl | hb
  · decide
  · have hb' : 9 ≤ b.toNat ∧ b.toNat ≤ 13 := by simpa [UInt8.le_iff_toNat_le] using hb
    omega

/-- `atoll` reads the digits up to the first other byte. -/
theorem digitsValue_takeWhile (s : List UInt8) : digitsValue s = decimal (s.takeWhile isDigit) := rfl

theorem digitsValue_eq (h : ∀ b ∈ ds, isDigit b = true) : digitsValue ds = decimal ds := by
  rw [digitsValue_takeWhile, List.takeWhile_eq_self_iff.2 h]

/-- `atoll`, of a string that does not start with a space. -/
theorem atoll_cons (hsp : isspace b = false) (ds : List UInt8) :
    atoll (b :: ds) =
      if b = 45 then max (-(digitsValue ds : ℤ)) (-2 ^ 63)
      else if b = 43 then min (digitsValue ds) (2 ^ 63 - 1)
      else min (digitsValue (b :: ds)) (2 ^ 63 - 1) := by
  unfold atoll
  rw [List.dropWhile_cons_of_neg (by simp [hsp])]
  split
  · rename_i heq
    obtain ⟨rfl, rfl⟩ := List.cons.inj heq
    rw [if_pos rfl]
  · rename_i heq
    obtain ⟨rfl, rfl⟩ := List.cons.inj heq
    rw [if_neg (by decide), if_pos rfl]
  · rename_i h45 h43
    rw [if_neg (fun e => h45 ds (by rw [e])), if_neg (fun e => h43 ds (by rw [e]))]

/-- **A decimal** is read as its value, or as the nearest `long long`. -/
theorem atoll_decimal (h : DecimalText s v) :
    0 ∉ s ∧ atoll s = max (-2 ^ 63) (min v (2 ^ 63 - 1)) := by
  cases h with
  | @plain ds hne hds =>
    obtain ⟨b, t, rfl⟩ := List.exists_cons_of_ne_nil hne
    have hb := (isDigit_iff b).1 (hds b List.mem_cons_self)
    have hsp : isspace b = false := by
      by_contra hsp
      have := isspace_toNat (by simpa using hsp)
      omega
    have h45 : b ≠ 45 := fun e => by rw [e] at hb; exact absurd hb (by decide)
    have h43 : b ≠ 43 := fun e => by rw [e] at hb; exact absurd hb (by decide)
    rw [atoll_cons hsp, if_neg h45, if_neg h43, digitsValue_eq hds]
    exact ⟨zero_notMem_digits hds, by omega⟩
  | @plus ds _ hds =>
    rw [atoll_cons (by decide), if_neg (by decide), if_pos rfl, digitsValue_eq hds]
    refine ⟨?_, by omega⟩
    rw [List.mem_cons, not_or]
    exact ⟨by decide, zero_notMem_digits hds⟩
  | @minus ds _ hds =>
    rw [atoll_cons (by decide), if_pos rfl, digitsValue_eq hds]
    refine ⟨?_, by omega⟩
    rw [List.mem_cons, not_or]
    exact ⟨by decide, zero_notMem_digits hds⟩

/-! ## `atoll` of bytes -/

theorem digit_lt (ds : List UInt8) : ∀ b ∈ ds.takeWhile isDigit, b.toNat - 48 < 10 := by
  intro b hb
  have := (isDigit_iff b).1 (List.mem_takeWhile_imp hb)
  omega

theorem digitsValue_lt (ds : List UInt8) : digitsValue ds < 10 ^ ds.length := by
  have hlen : (ds.takeWhile isDigit).length ≤ ds.length := (List.takeWhile_sublist _).length_le
  calc digitsValue ds < (0 + 1) * 10 ^ (ds.takeWhile isDigit).length := (foldl_base _ (digit_lt ds) 0).2
    _ = 10 ^ (ds.takeWhile isDigit).length := by rw [Nat.zero_add, Nat.one_mul]
    _ ≤ 10 ^ ds.length := Nat.pow_le_pow_right (by omega) hlen

theorem digitsValue_cons (hdig : ¬ isDigit b = true) (rest : List UInt8) : digitsValue (b :: rest) = 0 := by
  rw [digitsValue_takeWhile, List.takeWhile_cons_of_neg hdig]
  rfl

/-- The value of a digit is less than its code. -/
theorem digitsValue_cons_lt (hdig : isDigit b = true) {rest : List UInt8} {m : ℕ} (hlen : rest.length ≤ m) :
    digitsValue (b :: rest) < b.toNat * 256 ^ m := by
  have hrange := (isDigit_iff b).1 hdig
  have h10 : 10 ^ m ≤ 256 ^ m := Nat.pow_le_pow_left (by omega) m
  have htlen : (rest.takeWhile isDigit).length ≤ m := (List.takeWhile_sublist _).length_le.trans hlen
  have hdigits : digitsValue (b :: rest) =
      (rest.takeWhile isDigit).foldl (fun n b => 10 * n + (b.toNat - 48)) (b.toNat - 48) := by
    rw [digitsValue_takeWhile, List.takeWhile_cons_of_pos hdig, decimal, List.foldl_cons, Nat.mul_zero,
      Nat.zero_add]
  calc digitsValue (b :: rest)
      < (b.toNat - 48 + 1) * 10 ^ (rest.takeWhile isDigit).length := by
        rw [hdigits]
        exact (foldl_base _ (digit_lt rest) (b.toNat - 48)).2
    _ ≤ b.toNat * 256 ^ m := Nat.mul_le_mul (by omega) ((Nat.pow_le_pow_right (by omega) htlen).trans h10)

/-- No string of digits is longer than its argument. -/
theorem atoll_bounds (s : List UInt8) : -(10 ^ s.length : ℤ) < atoll s ∧ atoll s < 10 ^ s.length := by
  have hlen : (s.dropWhile isspace).length ≤ s.length := (List.dropWhile_sublist _).length_le
  have hpow : (10 ^ (s.dropWhile isspace).length : ℕ) ≤ 10 ^ s.length := Nat.pow_le_pow_right (by omega) hlen
  have hcast : ((10 ^ s.length : ℕ) : ℤ) = 10 ^ s.length := by push_cast; rfl
  have hself := digitsValue_lt (s.dropWhile isspace)
  unfold atoll
  split
  · rename_i ds heq
    rw [heq, List.length_cons, pow_succ] at hpow
    have := digitsValue_lt ds
    omega
  · rename_i ds heq
    rw [heq, List.length_cons, pow_succ] at hpow
    have := digitsValue_lt ds
    omega
  · omega

/-- **What `atoll` makes of bytes**: less than the number they are, or not positive and of
a first byte that is at most `'-'`. -/
theorem atoll_first (hb : b ≠ 0) {rest : List UInt8} {m : ℕ} (hlen : rest.length ≤ m) :
    0 ≤ atoll (b :: rest) ∧ atoll (b :: rest) < (b.toNat * 256 ^ m : ℕ) ∨
      -(10 ^ m : ℕ) < atoll (b :: rest) ∧ atoll (b :: rest) ≤ 0 ∧ b.toNat ≤ 45 := by
  have hpos := toNat_pos hb
  have h256 : 1 ≤ 256 ^ m := Nat.one_le_pow _ _ (by omega)
  have h10 : 10 ^ m ≤ 256 ^ m := Nat.pow_le_pow_left (by omega) m
  have hrest : 10 ^ rest.length ≤ 10 ^ m := Nat.pow_le_pow_right (by omega) hlen
  have hmul : 1 * 256 ^ m ≤ b.toNat * 256 ^ m := Nat.mul_le_mul_right _ hpos
  by_cases hsp : isspace b = true
  · have hskip : atoll (b :: rest) = atoll rest := by
      unfold atoll
      rw [List.dropWhile_cons_of_pos hsp]
    obtain ⟨hlo, hhi⟩ := atoll_bounds rest
    have hcast : (10 ^ rest.length : ℤ) = ((10 ^ rest.length : ℕ) : ℤ) := by push_cast; rfl
    rw [hcast] at hlo hhi
    have := isspace_toNat hsp
    rw [hskip]
    omega
  · rw [atoll_cons (by simpa using hsp)]
    have hval := digitsValue_lt rest
    by_cases h45 : b = 45
    · subst h45
      rw [if_pos rfl]
      have h45' : (45 : UInt8).toNat = 45 := rfl
      omega
    rw [if_neg h45]
    by_cases h43 : b = 43
    · rw [if_pos h43]
      omega
    · rw [if_neg h43]
      by_cases hdig : isDigit b = true
      · have hlt := digitsValue_cons_lt hdig hlen
        omega
      · rw [digitsValue_cons hdig]
        omega

/-- **The bytes of a number** are read as that number only when it is 0. -/
theorem atoll_bytes (hne : data ≠ []) (hlen : data.length ≤ 8) :
    atoll (cstr data) ≡ bigEndian data [ZMOD 2 ^ 64] ↔ bigEndian data = 0 := by
  obtain ⟨b, rest, rfl⟩ := List.exists_cons_of_ne_nil hne
  have hbytes : ∀ c ∈ rest, c.toNat < 256 := fun c _ => c.toNat_lt
  obtain ⟨hlo, hhi⟩ := @foldl_base 256 UInt8.toNat rest hbytes b.toNat
  have hv : bigEndian (b :: rest) = rest.foldl (fun n b => 256 * n + b.toNat) b.toNat := by
    rw [bigEndian, List.foldl_cons, Nat.mul_zero, Nat.zero_add]
  rw [← hv] at hlo hhi
  rw [List.length_cons] at hlen
  have hb := b.toNat_lt
  have hp256 : 256 ^ rest.length ≤ 256 ^ 7 := Nat.pow_le_pow_right (by omega) (by omega)
  have hp10 : 10 ^ rest.length ≤ 10 ^ 7 := Nat.pow_le_pow_right (by omega) (by omega)
  have hv64 : bigEndian (b :: rest) < 2 ^ 64 := by
    calc bigEndian (b :: rest) < (b.toNat + 1) * 256 ^ rest.length := hhi
      _ ≤ 256 * 256 ^ 7 := Nat.mul_le_mul (by omega) hp256
      _ = 2 ^ 64 := by norm_num
  rw [Int.modEq_iff_dvd]
  by_cases hzero : b = 0
  · -- the first byte is a NUL: the string is empty
    subst hzero
    have hempty : atoll (cstr (0 :: rest)) = 0 := by
      rw [cstr, List.takeWhile_cons_of_neg (by decide)]
      rfl
    rw [hempty]
    omega
  · have hcstr : cstr (b :: rest) = b :: cstr rest := by
      rw [cstr, List.takeWhile_cons_of_pos (by simpa using hzero)]
      rfl
    have hge : 1 * 256 ^ rest.length ≤ b.toNat * 256 ^ rest.length := Nat.mul_le_mul_right _ (toNat_pos hzero)
    have h1 : 1 ≤ 256 ^ rest.length := Nat.one_le_pow _ _ (by omega)
    have hshort : (cstr rest).length ≤ rest.length := (List.takeWhile_sublist _).length_le
    rw [hcstr]
    rcases atoll_first hzero hshort with ⟨hk0, hk⟩ | ⟨hk, hk0, h45⟩
    · omega
    · have hsmall : (b.toNat + 1) * 256 ^ rest.length ≤ 46 * 256 ^ 7 := Nat.mul_le_mul (by omega) hp256
      omega

/-! ## `pushvalue` -/

theorem pushvalue_atoll (atof : List UInt8 → UInt64) {type : FieldType}
    (h : type = .bit ∨ type.width ≠ none)
    (cell : MysqlCell) (len : ℕ) : pushvalue atof type (some cell) len = .integer (atoll (cstr cell.data)) := by
  cases type
  all_goals first | rfl | (rcases h with h | h <;> exact absurd h (by decide))

/-- A value of a column that is not `BIT`, read within the range of `long long`. -/
theorem text_modEq_iff {w : ℕ} (hw : w ≤ 64)
    (hv : -2 ^ (w - 1) ≤ v ∧ v < 2 ^ (w - 1) ∨ 0 ≤ v ∧ v < 2 ^ w) :
    max (-2 ^ 63) (min v (2 ^ 63 - 1)) ≡ v [ZMOD 2 ^ 64] ↔ v < 2 ^ 63 := by
  have h63 : (2 : ℤ) ^ (w - 1) ≤ 2 ^ 63 := pow_le_pow_right₀ (by norm_num) (by omega)
  have h64 : (2 : ℤ) ^ w ≤ 2 ^ 64 := pow_le_pow_right₀ (by norm_num) hw
  rw [Int.modEq_iff_dvd]
  omega

/-- **Integer columns.** `NULL` comes out as `nil`. A value comes out congruent to itself
modulo 2⁶⁴ if and only if it is less than 2⁶³ and, in a `BIT` column, 0. -/
theorem pushvalue_integer_iff (atof : List UInt8 → UInt64) (type : FieldType) (v : ℤ)
    (cell : MysqlCell) (h : IntegerCell type v cell.data) :
    (∀ len, pushvalue atof type none len = .nil) ∧
    ∃ k, pushvalue atof type (some cell) cell.data.length = .integer k ∧
      (k ≡ v [ZMOD 2 ^ 64] ↔ v < 2 ^ 63 ∧ (type = .bit → v = 0)) := by
  refine ⟨fun _ => rfl, ?_⟩
  obtain ⟨data, beyond⟩ := cell
  cases h with
  | @text _ w _ _ hw hv hdec =>
    have hbit : type ≠ .bit := by
      rintro rfl
      cases hw
    have hle : w ≤ 64 := by
      cases type <;> cases hw <;> decide
    obtain ⟨hnul, hatoll⟩ := atoll_decimal hdec
    have hcstr : cstr data = data := cstr_eq_self hnul
    refine ⟨_, pushvalue_atoll atof (.inr (by rw [hw]; simp)) _ _, ?_⟩
    simp only [hcstr, hatoll]
    rw [text_modEq_iff hle hv]
    exact ⟨fun h => ⟨h, fun e => absurd e hbit⟩, fun h => h.1⟩
  | @bit n _ hn1 hn64 hlen hlt =>
    have hlen' : data.length = (n + 7) / 8 := hlen.trans (Nat.ceilDiv_eq_add_pred_div n 8)
    have hdata : data ≠ [] := by
      rintro rfl
      simp only [List.length_nil] at hlen'
      omega
    refine ⟨_, pushvalue_atoll atof (.inl rfl) _ _, ?_⟩
    rw [atoll_bytes hdata (by omega)]
    constructor
    · intro hzero
      rw [hzero]
      exact ⟨by norm_num, fun _ => rfl⟩
    · rintro ⟨-, hzero⟩
      exact_mod_cast hzero rfl

/-- `"-1"` in a `BIGINT` column. -/
theorem pushvalue_integer_iff_minus :
    ∃ k, pushvalue (fun _ => 0) .longlong (some ⟨[45, 49], fun _ => 0⟩) 2 = .integer k ∧ k ≡ -1 [ZMOD 2 ^ 64] := by
  have hone : DecimalText [45, 49] (-1) := @DecimalText.minus [49] (by decide) (List.all_eq_true.1 (by decide))
  have hcell : IntegerCell .longlong (-1) [45, 49] := .text (w := 64) rfl (by norm_num) hone
  obtain ⟨k, hk, hiff⟩ :=
    (pushvalue_integer_iff (fun _ => 0) .longlong (-1) ⟨[45, 49], fun _ => 0⟩ hcell).2
  exact ⟨k, hk, hiff.2 ⟨by norm_num, nofun⟩⟩

/-- The byte of a `BIT(8)` column that is 5 is read as the number 0; 2⁶³ in an unsigned
`BIGINT` column as 2⁶³ - 1. -/
theorem bits_read_as_text :
    (IntegerCell .bit 5 [5] ∧
      pushvalue (fun _ => 0) .bit (some ⟨[5], fun _ => 0⟩) 1 = .integer 0 ∧ ¬ (0 : ℤ) ≡ 5 [ZMOD 2 ^ 64]) ∧
    IntegerCell .longlong 9223372036854775808
      [57, 50, 50, 51, 51, 55, 50, 48, 51, 54, 56, 53, 52, 55, 55, 53, 56, 48, 56] ∧
    pushvalue (fun _ => 0) .longlong
      (some ⟨[57, 50, 50, 51, 51, 55, 50, 48, 51, 54, 56, 53, 52, 55, 55, 53, 56, 48, 56], fun _ => 0⟩) 19 =
        .integer 9223372036854775807 ∧
    ¬ (9223372036854775807 : ℤ) ≡ 9223372036854775808 [ZMOD 2 ^ 64] := by
  have hbit : IntegerCell .bit 5 [5] :=
    @IntegerCell.bit 8 [5] (by decide) (by decide) (by simp [Nat.ceilDiv_eq_add_pred_div]) (by decide)
  refine ⟨⟨hbit, by decide, by decide⟩,
    .text (w := 64) rfl (by norm_num) (.plain (by decide) (List.all_eq_true.1 (by decide))), by decide, by decide⟩

end Qsf
