import Qsf.Lib.Rfc1521
import Qsf.Spec.Base64

/-!
# The encoder of base64

`b64_ntop` writes the text that RFC 1521 gives, as long as its length is an `int`.

* `ntopLoop_encode`: what the loop stores, and its result.
* `ntopLoop_overflow`: the text of 2 GiB, at which `datalength` overflows and the check of the
  size refuses.
* `encode_sizing_iff`: the lengths for which `B64_ENCODE_LEN` asks for a reasonable buffer.
-/

set_option autoImplicit false

namespace Qsf

open Rfc1521 (letter encode length_encode)

/-! ## Cells -/

theorem sizeT_natCast {n : ℕ} (h : n < 18446744073709551616) : sizeT n = n := by
  unfold sizeT
  omega

/-- **An assignment behind the bytes stored.** -/
theorem putByte_next {buf : List Cell} {off : ℕ} (xs : List UInt8) (h : off + xs.length < buf.length)
    (b : UInt8) :
    putByte (storeAt buf off xs) (off + xs.length) b = .ok (storeAt buf off (xs ++ [b])) := by
  have hlen := length_storeAt h.le
  have hset : storeAt (storeAt buf off xs) (off + xs.length) [b] =
      (storeAt buf off xs).set (off + xs.length) (some b) := by
    rw [storeAt, List.set_eq_take_append_cons_drop, if_pos (by omega), List.map_singleton,
      List.append_assoc, List.singleton_append, List.length_singleton]
  rw [putByte, if_pos (by omega), ← hset, storeAt_append (by omega)]

/-! ## Letters -/

theorem base64_eq : Base64 = Rfc1521.alphabet := rfl

/-- An index below 64 passes the assertion. -/
theorem base64At_eq {output : UInt8} {d : ℕ} (h : output.toNat = d) (hd : d < 64) :
    base64At output = .ok (letter d) := by
  have hlen : Base64.length = 64 := by decide
  unfold base64At letter
  rw [h, ← base64_eq, List.getD_eq_getElem?_getD, List.getElem?_eq_getElem (by omega)]
  rfl

section Outputs

variable (i0 i1 i2 : UInt8)

/-- **The six bits of each character**, as the encoder takes them from the bytes. -/
theorem output_eq :
    (i0 >>> 2).toNat = i0.toNat / 4 ∧
    (((i0 &&& 0x03) <<< 4) + (i1 >>> 4)).toNat = i0.toNat % 4 * 16 + i1.toNat / 16 ∧
    (((i1 &&& 0x0f) <<< 2) + (i2 >>> 6)).toNat = i1.toNat % 16 * 4 + i2.toNat / 64 ∧
    (i2 &&& 0x3f).toNat = i2.toNat % 64 := by
  have h0 := i0.toNat_lt
  have h1 := i1.toNat_lt
  have h2 := i2.toNat_lt
  have and3 : ∀ n : ℕ, n &&& 3 = n % 4 := fun n => Nat.and_two_pow_sub_one_eq_mod n 2
  have and15 : ∀ n : ℕ, n &&& 15 = n % 16 := fun n => Nat.and_two_pow_sub_one_eq_mod n 4
  have and63 : ∀ n : ℕ, n &&& 63 = n % 64 := fun n => Nat.and_two_pow_sub_one_eq_mod n 6
  simp only [UInt8.toNat_add, UInt8.toNat_shiftLeft, UInt8.toNat_shiftRight, UInt8.toNat_and,
    UInt8.reduceToNat, Nat.reduceMod, Nat.shiftLeft_eq, Nat.shiftRight_eq_div_pow, and3, and15, and63]
  refine ⟨trivial, ?_, ?_, trivial⟩
  · omega
  · omega

end Outputs

/-! ## Storing characters -/

section Put

variable {targsize n : ℕ} {target : List Cell} {cs : List UInt8}

/-- **Four characters that fit.** -/
theorem ntopPut_fits (hcs : cs.length = 4) (hfit : n + 4 ≤ targsize) (hlen : target.length = targsize)
    (hint : n + 4 < 2147483648) :
    ntopPut targsize n target cs = .ok (((n + 4 : ℕ) : ℤ), storeAt target n cs) := by
  have h32 : int32 ((n : ℤ) + 4) = ((n + 4 : ℕ) : ℤ) := by
    rw [int32_of_range (by omega) (by omega)]
    push_cast
    rfl
  have hsize : ¬ targsize < sizeT (n + 4 : ℕ) := by
    rw [sizeT_natCast (by omega)]
    omega
  have hin : 0 ≤ (n : ℤ) ∧ (n : ℤ).toNat + cs.length ≤ target.length := by omega
  unfold ntopPut
  rw [h32, if_neg hsize, if_pos hin, hcs]
  simp only [Nat.cast_ofNat, h32, Int.toNat_natCast]

/-- **The overflow**: the sum is a large `size_t`. -/
theorem ntopPut_overflow (hn : n + 4 = 2147483648) (htarg : targsize < 18446744071562067968) :
    ntopPut targsize n target cs = .error (.minusOne target) := by
  have h32 : int32 ((n : ℤ) + 4) = -2147483648 := by
    have hsum : (n : ℤ) + 4 = 2147483648 := by omega
    rw [hsum]
    decide
  have hsize : sizeT (-2147483648) = 18446744071562067968 := by decide
  unfold ntopPut
  rw [h32, hsize, if_pos htarg]

theorem ntopEnd_fits (hfit : n < targsize) (hlen : target.length = targsize)
    (hn : n < 18446744073709551616) :
    ntopEnd targsize n target = .ok ((n : ℤ), storeAt target n [0]) := by
  have hsize : ¬ targsize ≤ sizeT n := by
    rw [sizeT_natCast hn]
    omega
  have hn : n + ([] : List UInt8).length < target.length := by simpa [hlen] using hfit
  have hput := putByte_next [] hn 0
  rw [storeAt_nil, List.length_nil, Nat.add_zero, List.nil_append] at hput
  unfold ntopEnd
  rw [if_neg hsize, Int.toNat_natCast, hput]
  rfl

end Put

/-! ## The loop -/

section Loop

variable {targsize : ℕ}

/-- A round of the loop, for three bytes. -/
theorem ntopLoop_round (b0 b1 b2 : UInt8) (rest : List UInt8) (datalength : ℤ) (target : List Cell) :
    ntopLoop targsize (b0 :: b1 :: b2 :: rest) datalength target =
      (ntopPut targsize datalength target ((encode (b0 :: b1 :: b2 :: rest)).take 4)).bind fun out =>
        ntopLoop targsize rest out.1 out.2 := by
  have h0 := b0.toNat_lt
  have h1 := b1.toNat_lt
  have h2 := b2.toNat_lt
  obtain ⟨e0, e1, e2, e3⟩ := output_eq b0 b1 b2
  have hn : (b0.toNat * 256 + b1.toNat) * 256 + b2.toNat < 16777216 := by omega
  rw [ntopLoop, encode]
  rw [base64At_eq (d := ((b0.toNat * 256 + b1.toNat) * 256 + b2.toNat) / 262144) (by omega) (by omega),
    base64At_eq (d := ((b0.toNat * 256 + b1.toNat) * 256 + b2.toNat) / 4096 % 64) (by omega) (by omega),
    base64At_eq (d := ((b0.toNat * 256 + b1.toNat) * 256 + b2.toNat) / 64 % 64) (by omega) (by omega),
    base64At_eq (d := ((b0.toNat * 256 + b1.toNat) * 256 + b2.toNat) % 64) (by omega) (by omega)]
  rfl

theorem ntopLoop_tail {rest : List UInt8} (hrest : rest.length < 3) (datalength : ℤ)
    (target : List Cell) :
    ntopLoop targsize rest datalength target = ntopTail targsize rest datalength target := by
  match rest, hrest with
  | [], _ => rfl
  | [_], _ => rfl
  | [_, _], _ => rfl

/-- The last quantum, for one or two bytes. -/
theorem ntopLoop_rest {rest : List UInt8} (hpos : rest ≠ []) (hrest : rest.length < 3)
    (datalength : ℤ) (target : List Cell) :
    ntopLoop targsize rest datalength target =
      (ntopPut targsize datalength target (encode rest)).bind fun out =>
        ntopEnd targsize out.1 out.2 := by
  match rest, hpos, hrest with
  | [b0], _, _ =>
    have h0 := b0.toNat_lt
    obtain ⟨e0, e1, e2, -⟩ := output_eq b0 0 0
    rw [ntopLoop_tail (by simp), ntopTail, if_neg (by simp), encode]
    simp only [List.getD_cons_zero, List.getD_cons_succ, List.getD_nil, UInt8.toNat_zero] at e0 e1 e2 ⊢
    rw [base64At_eq (d := b0.toNat * 16 / 64) (by omega) (by omega),
      base64At_eq (d := b0.toNat * 16 % 64) (by omega) (by omega),
      base64At_eq (d := 0) (by omega) (by omega)]
    rfl
  | [b0, b1], _, _ =>
    have h0 := b0.toNat_lt
    have h1 := b1.toNat_lt
    obtain ⟨e0, e1, e2, -⟩ := output_eq b0 b1 0
    rw [ntopLoop_tail (by simp), ntopTail, if_neg (by simp), encode]
    simp only [List.getD_cons_zero, List.getD_cons_succ, List.getD_nil, UInt8.toNat_zero] at e0 e1 e2 ⊢
    rw [base64At_eq (d := (b0.toNat * 256 + b1.toNat) * 4 / 4096) (by omega) (by omega),
      base64At_eq (d := (b0.toNat * 256 + b1.toNat) * 4 / 64 % 64) (by omega) (by omega),
      base64At_eq (d := (b0.toNat * 256 + b1.toNat) * 4 % 64) (by omega) (by omega)]
    rfl

/-- A rest of the loop is a quantum of its own. -/
theorem ceilDiv_rest {rest : List UInt8} (hpos : rest ≠ []) (hrest : rest.length < 3) :
    rest.length ⌈/⌉ 3 = 1 := by
  have hlen : 0 < rest.length := List.length_pos_iff.2 hpos
  exact ceilDiv_of_le hlen (by omega)

theorem ceilDiv_round (b0 b1 b2 : UInt8) (rest : List UInt8) :
    (b0 :: b1 :: b2 :: rest).length ⌈/⌉ 3 = rest.length ⌈/⌉ 3 + 1 := by
  have hlen : (b0 :: b1 :: b2 :: rest).length = 3 + rest.length := by
    simp only [List.length_cons]
    omega
  rw [hlen, ceilDiv_add_self (by omega)]

/-- What the last quantum stores. -/
theorem ntopLoop_quantum {rest : List UInt8} {n : ℕ} {target : List Cell} (hpos : rest ≠ [])
    (hrest : rest.length < 3) (hlen : target.length = targsize)
    (hfit : n + 4 * (rest.length ⌈/⌉ 3) < targsize) (hint : n + 4 * (rest.length ⌈/⌉ 3) < 2147483648) :
    ntopLoop targsize rest n target =
      .ok (((n + (encode rest).length : ℕ) : ℤ), storeAt target n (encode rest ++ [0])) := by
  have hq := length_encode rest
  rw [ceilDiv_rest hpos hrest] at hfit hint hq
  have hst : (storeAt target n (encode rest)).length = target.length := length_storeAt (by omega)
  rw [ntopLoop_rest hpos hrest, ntopPut_fits hq (by omega) hlen (by omega)]
  simp only [Except.bind]
  rw [ntopEnd_fits (by omega) (by omega) (by omega), hq]
  have hle : n ≤ target.length := by omega
  have happ := storeAt_append hle (encode rest) [0]
  rw [hq] at happ
  rw [happ]

/-- **The encoder stores the text**, and a NUL behind it. -/
theorem ntopLoop_encode (targsize : ℕ) (s : List UInt8) :
    ∀ (n : ℕ) (target : List Cell), target.length = targsize →
    n + 4 * (s.length ⌈/⌉ 3) < targsize → n + 4 * (s.length ⌈/⌉ 3) < 2147483648 →
    ntopLoop targsize s n target =
      .ok (((n + (encode s).length : ℕ) : ℤ), storeAt target n (encode s ++ [0])) := by
  -- the induction follows the three bytes that a round takes
  induction s using Rfc1521.octets_induction with
  | quantum b0 b1 b2 rest ih =>
    intro n target hlen hfit hint
    rw [ceilDiv_round] at hfit hint
    set q := (encode (b0 :: b1 :: b2 :: rest)).take 4 with hq
    have hq4 : q.length = 4 := rfl
    have hsplit : encode (b0 :: b1 :: b2 :: rest) = q ++ encode rest := rfl
    have hst : (storeAt target n q).length = target.length := length_storeAt (by omega)
    rw [ntopLoop_round, ← hq, ntopPut_fits hq4 (by omega) hlen (by omega)]
    simp only [Except.bind]
    rw [ih (n + 4) (storeAt target n q) (by omega) (by omega) (by omega), hsplit]
    have hle : n ≤ target.length := by omega
    have happ := storeAt_append hle q (encode rest ++ [0])
    rw [hq4] at happ
    rw [happ, List.append_assoc, List.length_append, hq4, Nat.add_assoc]
  | two b0 b1 =>
    intro n target hlen hfit hint
    exact ntopLoop_quantum (by simp) (by simp) hlen hfit hint
  | one b0 =>
    intro n target hlen hfit hint
    exact ntopLoop_quantum (by simp) (by simp) hlen hfit hint
  | nil =>
    intro n target hlen hfit hint
    rw [ntopLoop_tail (by simp), ntopTail, if_pos (by simp), ntopEnd_fits (by omega) hlen (by omega)]
    rfl

/-- A last quantum that overflows `datalength`. -/
theorem ntopLoop_quantum_overflow {rest : List UInt8} {n : ℕ} {target : List Cell}
    (htarg : targsize < 18446744071562067968) (hpos : rest ≠ []) (hrest : rest.length < 3) (hmod : n % 4 = 0)
    (hlt : n < 2147483648) (hbig : 2147483648 ≤ n + 4 * (rest.length ⌈/⌉ 3)) :
    ntopLoop targsize rest n target = .error (.minusOne target) := by
  rw [ceilDiv_rest hpos hrest] at hbig
  rw [ntopLoop_rest hpos hrest, ntopPut_overflow (by omega) htarg]
  rfl

/-- **A text of 2 GiB** is refused: the round that would end it overflows `datalength`. -/
theorem ntopLoop_overflow (htarg : targsize < 18446744071562067968) (s : List UInt8) :
    ∀ (n : ℕ) (target : List Cell), n % 4 = 0 → n < 2147483648 → target.length = targsize →
    n + 4 * (s.length ⌈/⌉ 3) < targsize → 2147483648 ≤ n + 4 * (s.length ⌈/⌉ 3) →
    ∃ buf, ntopLoop targsize s n target = .error (.minusOne buf) := by
  induction s using Rfc1521.octets_induction with
  | quantum b0 b1 b2 rest ih =>
    intro n target hmod hlt hlen hfit hbig
    rw [ceilDiv_round] at hfit hbig
    set q := (encode (b0 :: b1 :: b2 :: rest)).take 4 with hq
    have hq4 : q.length = 4 := rfl
    rw [ntopLoop_round, ← hq]
    by_cases hend : n + 4 = 2147483648
    · rw [ntopPut_overflow hend htarg]
      exact ⟨target, rfl⟩
    · have hst : (storeAt target n q).length = target.length := length_storeAt (by omega)
      rw [ntopPut_fits hq4 (by omega) hlen (by omega)]
      simp only [Except.bind]
      exact ih (n + 4) _ (by omega) (by omega) (by omega) (by omega) (by omega)
  | two b0 b1 =>
    intro n target hmod hlt _ _ hbig
    exact ⟨target, ntopLoop_quantum_overflow htarg (by simp) (by simp) hmod hlt hbig⟩
  | one b0 =>
    intro n target hmod hlt _ _ hbig
    exact ⟨target, ntopLoop_quantum_overflow htarg (by simp) (by simp) hmod hlt hbig⟩
  | nil =>
    intro n target _ hlt _ _ hbig
    rw [List.length_nil, zero_ceilDiv] at hbig
    omega

end Loop

/-! ## The size of the buffer -/

/-- `B64_ENCODE_LEN`, without wrapping. -/
theorem encodeLen_toNat {n : ℕ} (hpos : 0 < n) (hn : n < 4294967296) :
    (b64EncodeLen (UInt64.ofNat n)).toNat =
      4 * (n ⌈/⌉ 3) + (4 * (n ⌈/⌉ 3) - 1) / 76 + 1 := by
  have hof : (UInt64.ofNat n).toNat = n := by
    rw [UInt64.toNat_ofNat']
    omega
  have hchars : (b64Chars (UInt64.ofNat n)).toNat = 4 * (n ⌈/⌉ 3) := by
    rw [b64Chars, Nat.ceilDiv_eq_add_pred_div]
    simp only [UInt64.toNat_mul, UInt64.toNat_div, UInt64.toNat_add, hof, UInt64.reduceToNat]
    omega
  have hceil : n ⌈/⌉ 3 = (n + 2) / 3 := Nat.ceilDiv_eq_add_pred_div n 3
  have hsub : (b64Chars (UInt64.ofNat n) - 1).toNat = 4 * (n ⌈/⌉ 3) - 1 := by
    rw [UInt64.toNat_sub, hchars]
    simp only [UInt64.reduceToNat]
    omega
  rw [b64EncodeLen]
  simp only [UInt64.toNat_add, UInt64.toNat_div, hsub, hchars, UInt64.reduceToNat]
  omega

/-- The buffer for `n` bytes has room for the text and its NUL, and is not much larger. -/
def EncodeSized (n : ℕ) : Prop :=
  4 * (n ⌈/⌉ 3) + 1 ≤ (b64EncodeLen (UInt64.ofNat n)).toNat ∧
    (b64EncodeLen (UInt64.ofNat n)).toNat ≤ 2 * n + 8

/-- `b64_ntop` does not return -1 when `base64_encode` calls it. -/
def Encodes (data : List UInt8) : Prop :=
  ∀ target, b64Ntop data (qsfMalloc (b64EncodeLen (UInt64.ofNat data.length)).toNat)
    (b64EncodeLen (UInt64.ofNat data.length)).toNat ≠ .error (.minusOne target)

theorem encodeSized_iff {n : ℕ} (hn : n < 4294967296) : EncodeSized n ↔ 0 < n := by
  constructor
  · intro h
    by_contra hzero
    obtain rfl : n = 0 := by omega
    exact absurd h.2 (by decide)
  · intro hpos
    have hceil : n ⌈/⌉ 3 = (n + 2) / 3 := Nat.ceilDiv_eq_add_pred_div n 3
    rw [EncodeSized, encodeLen_toNat hpos hn]
    omega

/-- **The buffer of the encoder.** Its size is right exactly for strings that are not empty;
and it is right and the encoder does not fail exactly as long as the length of the text is
an `int`, too. -/
theorem encode_sizing_iff (n : ℕ) (hn : n < 4294967296) :
    (EncodeSized n ↔ 0 < n) ∧
    ((EncodeSized n ∧ ∀ data : List UInt8, data.length = n → Encodes data) ↔ 0 < n ∧ n ≤ 1610612733) := by
  refine ⟨encodeSized_iff hn, ?_⟩
  rw [encodeSized_iff hn, and_congr_right_iff]
  intro hpos
  have hsize := encodeLen_toNat hpos hn
  have hceil : n ⌈/⌉ 3 = (n + 2) / 3 := Nat.ceilDiv_eq_add_pred_div n 3
  constructor
  · intro h
    by_contra hlarge
    have hlen : (List.replicate n (0 : UInt8)).length = n := List.length_replicate
    have hdata := h (List.replicate n 0) hlen
    unfold Encodes b64Ntop at hdata
    rw [hlen] at hdata
    have htarg : (b64EncodeLen (UInt64.ofNat n)).toNat < 18446744071562067968 := by omega
    obtain ⟨buf, hbuf⟩ := ntopLoop_overflow htarg
      (List.replicate n 0) 0 (qsfMalloc _) rfl (by omega) List.length_replicate
      (by rw [hlen]; omega) (by rw [hlen]; omega)
    exact hdata buf hbuf
  · rintro hle data rfl target hfail
    have hok := ntopLoop_encode (b64EncodeLen (UInt64.ofNat data.length)).toNat data 0
      (qsfMalloc _) List.length_replicate (by omega) (by omega)
    rw [b64Ntop, ← Int.natCast_zero, hok] at hfail
    cases hfail

/-- One byte. -/
theorem encode_sizing_iff_one : EncodeSized 1 ∧ ∀ data : List UInt8, data.length = 1 → Encodes data :=
  (encode_sizing_iff 1 (by decide)).2.2 (by decide)

/-- For the empty string, `B64_CHARS(x) - 1` wraps around. -/
theorem empty_asks_too_much :
    ¬ EncodeSized 0 ∧ (b64EncodeLen (UInt64.ofNat 0)).toNat = 242720316759336206 := by
  refine ⟨fun h => absurd h.2 (by decide), by decide⟩

end Qsf
