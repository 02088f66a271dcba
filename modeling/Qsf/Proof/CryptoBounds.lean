import Qsf.Proof.Crypto

/-!
# What RSA does with its buffer and its keys

`do_rsa_encrypt` computes `need_size` in an `int`, from a length that was a `size_t`, and
takes any key.

* `rsa_bounded_iff`: the lengths for which the result stays inside the buffer. A size
  that overflows passes the guard (`rsa_overruns`).
* `rsa_safe_iff`: the keys for which the divisions and the lengths of the calls are in
  order, those of at least 12 bytes.
-/

set_option autoImplicit false

namespace Qsf

namespace QsfRSA

variable {κ : Type} {ssl : OpenSsl κ} {debug : Bool} {rsa : QsfRSA κ} {fuel : ℕ}

/-! ## The buffer is not exceeded -/

/-- **What encryption of `n` bytes should do**: abort, or refuse before anything is written,
or process all the bytes within the buffer, with `need_size` right. -/
def Contained (k n : ℕ) : Except RsaFault RsaReturn → Prop
  | .error _ => True
  | .ok out => (out.ret = -2 ∧ out.calls = []) ∨
      (out.processed = n ∧ out.written ≤ MAX_RSA_BUF ∧
        encryptNeedSize k (int32 n) = (k * (n ⌈/⌉ (k - 11)) : ℕ))

/-- **The lengths for which it does**, by the size that the low 32 bits are as an `int`. The
assertion of a debug build stops a size that is not positive. A positive size is refused when
the low 32 bits of what it needs are an `int` above the size of the buffer, or it is the length
and fits. A negative one is refused when `need_size`, which is negative for it, has wrapped
around to such an `int`. -/
def FitsInt (debug : Bool) (k n : ℕ) : Prop :=
  let size := n % 4294967296
  if size = 0 then n = 0 ∨ debug
  else if size < 2147483648 then
    let need := k * (size ⌈/⌉ (k - 11))
    (MAX_RSA_BUF < need % 4294967296 ∧ need % 4294967296 < 2147483648) ∨
      (n < 2147483648 ∧ need ≤ MAX_RSA_BUF)
  else
    let back := k * ((4294967296 - size) / (k - 11))
    debug ∨ (2147483648 < back % 4294967296 ∧ back % 4294967296 < 4294967296 - MAX_RSA_BUF)

/-- What an `int` keeps of a number that is not negative. -/
theorem lt_int32_iff {n b : ℕ} :
    (b : ℤ) < int32 n ↔ b < n % 4294967296 ∧ n % 4294967296 < 2147483648 := by
  unfold int32
  rw [Int.bmod_def]
  split <;> omega

theorem int32_of_mod {n : ℕ} (h : n % 4294967296 < 2147483648) : int32 n = (n % 4294967296 : ℕ) := by
  unfold int32
  rw [Int.bmod_def]
  split <;> omega

/-- What an `int` keeps of a number that is not positive. -/
theorem lt_int32_neg_iff {n b : ℕ} :
    (b : ℤ) < int32 (-n) ↔ 2147483648 < n % 4294967296 ∧ n % 4294967296 < 4294967296 - b := by
  unfold int32
  rw [Int.bmod_def]
  split <;> omega

/-- A length whose low 32 bits have the sign bit is a negative `int`. -/
theorem int32_of_sign {n : ℕ} (h : 2147483648 ≤ n % 4294967296) :
    int32 n = -((4294967296 - n % 4294967296 : ℕ) : ℤ) := by
  unfold int32
  rw [Int.bmod_def]
  split <;> omega

theorem int32_zero : int32 0 = 0 := int32_of_range (by norm_num) (by norm_num)

theorem encryptNeedSize_zero (k : ℤ) : encryptNeedSize k 0 = 0 := by
  unfold encryptNeedSize
  simp [int32_zero]

/-- `need_size` of a negative size: whole blocks only, with the sign of the size. -/
theorem encryptNeedSize_neg {k : ℕ} (hk : 12 ≤ k) (m : ℕ) :
    encryptNeedSize k (-m) = int32 (-(k * (m / (k - 11)) : ℕ)) := by
  have hb : (k : ℤ) - 11 = (k - 11 : ℕ) := by omega
  have hdiv : (-(m : ℤ)).tdiv (k - 11 : ℕ) = -(m / (k - 11) : ℕ) := by
    rw [Int.neg_tdiv, Int.tdiv_eq_ediv_of_nonneg (Int.natCast_nonneg m)]
    norm_cast
  have hmod : ¬ 0 < (-(m : ℤ)).tmod (k - 11 : ℕ) := by
    rw [Int.neg_tmod, Int.tmod_eq_emod_of_nonneg (Int.natCast_nonneg m)]
    have hnonneg := Int.emod_nonneg (m : ℤ) (b := ((k - 11 : ℕ) : ℤ)) (by omega)
    omega
  unfold encryptNeedSize
  simp only [hb, hdiv, if_neg hmod, add_zero]
  congr 1
  push_cast
  ring

/-- **Without a positive size nothing is encrypted**: the assertion fails, the guard refuses, or
the loop ends at once. -/
theorem doRsaEncrypt_empty (debug : Bool) (hk : 12 ≤ ssl.rsaSize rsa.ctx) (func : RSAFuncType κ)
    (src : List UInt8) {size : ℤ} (hsize : size ≤ 0) (hfuel : 0 < fuel) :
    doRsaEncrypt ssl debug fuel rsa func src size = some
      (if debug then .error .assertion
      else if (MAX_RSA_BUF : ℤ) < encryptNeedSize (ssl.rsaSize rsa.ctx) size then .ok ⟨-2, rsa.buf, []⟩
      else .ok ⟨0, rsa.buf, []⟩) := by
  obtain ⟨n, rfl⟩ : ∃ n, fuel = n + 1 := ⟨fuel - 1, by omega⟩
  have hne : ((ssl.rsaSize rsa.ctx : ℕ) : ℤ) - 11 ≠ 0 := by omega
  unfold doRsaEncrypt
  cases debug with
  | true => simp only [hsize, decide_true, Bool.and_self, if_true]
  | false =>
    simp only [Bool.false_and, Bool.false_eq_true, if_false, hne]
    split
    · rfl
    · rw [rsaLoop, if_neg (not_lt.2 hsize)]
      simp only [Nat.cast_zero, int32_zero, Option.map_some]

variable (debug) in
/-- **Such a message is contained** exactly when it is empty, aborts or is refused. -/
theorem contained_empty_iff (func : RSAFuncType κ) {data : List UInt8} (hk : 12 ≤ ssl.rsaSize rsa.ctx)
    (hsize : int32 data.length ≤ 0) (hfuel : 0 < fuel) :
    ∃ out, doRsaEncrypt ssl debug fuel rsa func data (int32 data.length) = some out ∧
      (Contained (ssl.rsaSize rsa.ctx) data.length out ↔ data.length = 0 ∨ debug ∨
        (MAX_RSA_BUF : ℤ) < encryptNeedSize (ssl.rsaSize rsa.ctx) (int32 data.length)) := by
  rw [doRsaEncrypt_empty debug hk func data hsize hfuel]
  cases debug with
  | true => exact ⟨.error .assertion, rfl, by simp only [Contained, true_or, or_true]⟩
  | false =>
    simp only [Bool.false_eq_true, if_false, false_or]
    by_cases hguard : (MAX_RSA_BUF : ℤ) < encryptNeedSize (ssl.rsaSize rsa.ctx) (int32 data.length)
    · rw [if_pos hguard]
      exact ⟨_, rfl, iff_of_true (.inl ⟨rfl, rfl⟩) (.inr hguard)⟩
    · -- let through: no byte was processed
      rw [if_neg hguard]
      refine ⟨_, rfl, ?_⟩
      constructor
      · rintro (⟨hret, -⟩ | ⟨hn, -⟩)
        · cases hret
        · simp only [RsaReturn.processed, List.map_nil, List.sum_nil] at hn
          exact .inl (by omega)
      · intro hn
        have hlen : data.length = 0 := hn.resolve_right hguard
        have hneed : encryptNeedSize (ssl.rsaSize rsa.ctx) (int32 data.length) = 0 := by
          rw [hlen, Nat.cast_zero, int32_zero, encryptNeedSize_zero]
        have hblocks : ssl.rsaSize rsa.ctx * (data.length ⌈/⌉ (ssl.rsaSize rsa.ctx - 11)) = 0 := by
          rw [hlen, zero_ceilDiv, Nat.mul_zero]
        refine .inr ⟨?_, Nat.zero_le _, ?_⟩
        · rw [hlen]
          rfl
        · rw [hneed, hblocks, Nat.cast_zero]

/-- **The first `s` bytes of a message**, when the guard lets them through. -/
theorem doRsaEncrypt_prefix (debug : Bool) {func : RSAFuncType κ} {data : List UInt8} {s : ℕ}
    (hk : 12 ≤ ssl.rsaSize rsa.ctx) (hfunc : WritesBlocks (ssl.rsaSize rsa.ctx) (func rsa.ctx))
    (hpos : 0 < s) (hle : s ≤ data.length) (hint : s < 2147483648) (hfuel : data.length < fuel)
    (hguard : encryptNeedSize (ssl.rsaSize rsa.ctx) s ≤ (MAX_RSA_BUF : ℤ)) :
    ∃ out, doRsaEncrypt ssl debug fuel rsa func data s = some (.ok out) ∧ out.calls ≠ [] ∧
      out.processed = s ∧ out.written = ssl.rsaSize rsa.ctx * (s ⌈/⌉ (ssl.rsaSize rsa.ctx - 11)) := by
  obtain ⟨xs, hcut⟩ := exists_cut (b := ssl.rsaSize rsa.ctx - 11) (by omega) (data.take s)
  have hlen : (data.take s).length = s := List.length_take_of_le hle
  have hne : data.take s ≠ [] := by
    rw [← List.length_pos_iff, hlen]
    exact hpos
  -- every block of the prefix becomes a block of the size of the key
  have hwrites : ∀ x ∈ xs, (func rsa.ctx x.length x).1 = ssl.rsaSize rsa.ctx ∧
      (func rsa.ctx x.length x).2.length = ssl.rsaSize rsa.ctx := by
    intro x hx
    obtain ⟨h1, h2⟩ := hcut.bounds (by omega) x hx
    exact hfunc x h1 h2
  have hcalls : ∀ x ∈ xs, func rsa.ctx x.length x =
      (((func rsa.ctx x.length x).2.length : ℤ), (func rsa.ctx x.length x).2) ∧
        (func rsa.ctx x.length x).2 ≠ [] := by
    intro x hx
    obtain ⟨hret, hout⟩ := hwrites x hx
    refine ⟨Prod.ext_iff.2 ⟨by rw [hret, hout], rfl⟩, ?_⟩
    rw [← List.length_pos_iff, hout]
    omega
  have hrun : doRsaEncrypt ssl debug fuel rsa func (data.take s ++ data.drop s) (data.take s).length = _ :=
    doRsaEncrypt_blocks (fun x => (func rsa.ctx x.length x).2) hk hne hcut (by omega)
      (by rw [hlen]; exact hguard) hcalls (by omega) (data.drop s)
  rw [List.take_append_drop, hlen] at hrun
  refine ⟨_, hrun, ?_, ?_, ?_⟩
  · intro hnil
    have hxs : xs = [] := List.map_eq_nil_iff.1 hnil
    subst hxs
    exact hne hcut.flatten.symm
  · have hsum : (xs.map List.length).sum = s := by
      rw [← List.length_flatten, hcut.flatten, hlen]
    unfold RsaReturn.processed
    rw [← hsum, Nat.cast_list_sum, List.map_map, List.map_map]
    rfl
  · have hcount := hcut.size (by omega)
    rw [hlen] at hcount
    have hconst : xs.map (fun x => (func rsa.ctx x.length x).2.length) =
        xs.map fun _ => ssl.rsaSize rsa.ctx :=
      List.map_congr_left fun x hx => (hwrites x hx).2
    unfold RsaReturn.written
    rw [List.map_map, Function.comp_def]
    simp only [hconst, List.map_const', List.sum_replicate, smul_eq_mul, hcount]
    exact Nat.mul_comm _ _

/-- **One method**, whose primitive always writes its block. -/
theorem contained_iff {func : RSAFuncType κ} {data : List UInt8} (hk : 12 ≤ ssl.rsaSize rsa.ctx)
    (hfunc : WritesBlocks (ssl.rsaSize rsa.ctx) (func rsa.ctx)) (hfuel : data.length < fuel) :
    ∃ out, doRsaEncrypt ssl debug fuel rsa func data (int32 data.length) = some out ∧
      (Contained (ssl.rsaSize rsa.ctx) data.length out ↔
        FitsInt debug (ssl.rsaSize rsa.ctx) data.length) := by
  have hmax : MAX_RSA_BUF = 16384 := rfl
  have hpos := lt_int32_iff (n := data.length) (b := 0)
  by_cases hsize : 0 < int32 data.length
  swap
  · obtain ⟨out, hout, hiff⟩ := contained_empty_iff debug func hk
      (not_lt.1 hsize) (Nat.zero_lt_of_lt hfuel)
    refine ⟨out, hout, hiff.trans ?_⟩
    unfold FitsInt
    by_cases hzero : data.length % 4294967296 = 0
    · have hint := int32_of_mod (n := data.length) (by omega)
      rw [hzero, Nat.cast_zero] at hint
      rw [hint, if_pos hzero, encryptNeedSize_zero]
      simp [hmax]
    · have hsign : 2147483648 ≤ data.length % 4294967296 := by omega
      have hlen : data.length ≠ 0 := by omega
      rw [if_neg hzero, if_neg (not_lt.2 hsign), int32_of_sign hsign, encryptNeedSize_neg hk,
        lt_int32_neg_iff]
      simp only [hlen, false_or]
  obtain ⟨hlow, hhigh⟩ := hpos.1 hsize
  have heq := int32_of_mod hhigh
  unfold FitsInt
  -- the part of the message that the `int` covers
  set s := data.length % 4294967296 with hs
  have hneed := encryptNeedSize_eq hk s
  rw [if_neg (by omega), if_pos hhigh]
  -- either the guard refuses the size it computed, or the loop runs over these bytes
  by_cases hguard : (MAX_RSA_BUF : ℤ) < encryptNeedSize (ssl.rsaSize rsa.ctx) s
  · refine ⟨.ok ⟨-2, rsa.buf, []⟩, ?_, ⟨?_, fun _ => .inl ⟨rfl, rfl⟩⟩⟩
    · rw [heq, doRsaEncrypt_eq hk func data (by omega), if_pos hguard]
    · intro _
      rw [hneed, lt_int32_iff] at hguard
      exact .inl hguard
  · obtain ⟨out, hout, hcalls, hprocessed, hwritten⟩ := doRsaEncrypt_prefix debug hk hfunc hlow
      (Nat.mod_le _ _) hhigh hfuel (not_lt.1 hguard)
    refine ⟨.ok out, by rw [heq]; exact hout, ?_⟩
    simp only [Contained, heq, hprocessed, hwritten, hneed]
    rw [hneed, lt_int32_iff] at hguard
    constructor
    · rintro (⟨-, hnil⟩ | ⟨hn, hbuf, -⟩)
      · exact absurd hnil hcalls
      · exact .inr ⟨by omega, hbuf⟩
    · rintro (hbad | ⟨hn, hbuf⟩)
      · exact absurd hbad hguard
      · have hall : s = data.length := Nat.mod_eq_of_lt (by omega)
        rw [hall] at hbuf ⊢
        exact .inr ⟨rfl, hbuf, int32_of_range (by omega) (by omega)⟩

/-- **The output of `pubEncrypt` and `priEncrypt` stays inside the buffer** exactly for the
lengths that fit. -/
theorem rsa_bounded_iff {data : List UInt8} (hk : 12 ≤ ssl.rsaSize rsa.ctx)
    (hpub : WritesBlocks (ssl.rsaSize rsa.ctx) (ssl.rsaPublicEncrypt rsa.ctx))
    (hpri : WritesBlocks (ssl.rsaSize rsa.ctx) (ssl.rsaPrivateEncrypt rsa.ctx))
    (hfuel : data.length < fuel) :
    (∃ out, cryptoRsaPubEncrypt ssl debug fuel rsa data = some out ∧
      (Contained (ssl.rsaSize rsa.ctx) data.length out ↔
        FitsInt debug (ssl.rsaSize rsa.ctx) data.length)) ∧
    ∃ out, cryptoRsaEncrypt ssl debug fuel rsa data = some out ∧
      (Contained (ssl.rsaSize rsa.ctx) data.length out ↔
        FitsInt debug (ssl.rsaSize rsa.ctx) data.length) :=
  ⟨contained_iff hk hpub hfuel, contained_iff hk hpri hfuel⟩

/-- One byte. -/
theorem rsa_bounded_iff_one : ∃ out, cryptoRsaPubEncrypt paddingOnly false 2 ⟨12, []⟩ [7] = some out ∧
    Contained 12 1 out := by
  have hpad := padBlock_writes (le_refl 12) (by norm_num)
  obtain ⟨⟨out, hout, hiff⟩, -⟩ := @rsa_bounded_iff ℕ paddingOnly false ⟨12, []⟩ 2 [7] (le_refl 12) hpad hpad
    (by decide)
  refine ⟨out, hout, hiff.2 ?_⟩
  have hfits : FitsInt false 12 1 := by
    unfold FitsInt
    decide
  exact hfits

/-- **A message of 16777216 blocks** under a key of 128 bytes needs 2³¹ bytes. As an `int`
that is negative, and the guard lets it through. -/
theorem rsa_overruns : ∃ out,
    cryptoRsaPubEncrypt paddingOnly true 1962934273 ⟨128, qsfMalloc MAX_RSA_BUF⟩
      (List.replicate 1962934272 0) = some out ∧ ¬ Contained 128 1962934272 out := by
  obtain ⟨out, hout, hiff⟩ := @contained_iff ℕ paddingOnly true
    ⟨128, qsfMalloc MAX_RSA_BUF⟩ 1962934273 padBlock (List.replicate 1962934272 0) (by decide)
    (padBlock_writes (k := 128) (by norm_num) (by norm_num)) (by rw [List.length_replicate]; norm_num)
  rw [List.length_replicate] at hiff
  refine ⟨out, hout, ?_⟩
  intro hcontained
  have hblocks : 1962934272 % 4294967296 ⌈/⌉ (128 - 11) = 16777216 := by decide
  have hfits : FitsInt true 128 1962934272 := hiff.1 hcontained
  unfold FitsInt at hfits
  have hmax : MAX_RSA_BUF = 16384 := rfl
  simp only [hblocks] at hfits
  norm_num [hmax] at hfits

/-- **A length of 2³²** is the size 0 to a build without assertions: nothing is encrypted, and
nothing says so. -/
example : ¬ FitsInt false 128 4294967296 := by
  unfold FitsInt
  decide

/-! ## Keys of any size -/

/-- **Encryption is safe with this key**: whatever the primitive does, no division fails,
every call gets 1 to `k - 11` bytes, and the loop ends. -/
def EncryptSafe (ssl : OpenSsl κ) (debug : Bool) (rsa : QsfRSA κ) : Prop :=
  ∀ (func : RSAFuncType κ) (src : List UInt8), src ≠ [] → src.length < 2147483648 →
    ∃ fuel out, doRsaEncrypt ssl debug fuel rsa func src src.length = some (.ok out) ∧
      ∀ c ∈ out.calls, 1 ≤ c.len ∧ c.len ≤ (ssl.rsaSize rsa.ctx : ℤ) - 11

/-- **Decryption is safe with this key**: the same, and every call gets `k` bytes. -/
def DecryptSafe (ssl : OpenSsl κ) (debug : Bool) (rsa : QsfRSA κ) : Prop :=
  ∀ (func : RSAFuncType κ) (src : List UInt8), src ≠ [] → src.length < 2147483648 →
    ∃ fuel out, doRsaDecrypt ssl debug fuel rsa func src src.length = some (.ok out) ∧
      ∀ c ∈ out.calls, c.len = ssl.rsaSize rsa.ctx

theorem encrypt_safe (hk : 12 ≤ ssl.rsaSize rsa.ctx) : EncryptSafe ssl debug rsa := by
  intro func src hsrc hlt
  have hpos : 0 < src.length := List.length_pos_iff.2 hsrc
  refine ⟨src.length + 1, ?_⟩
  rw [doRsaEncrypt_eq hk func src (by omega)]
  split
  · exact ⟨_, rfl, fun c hc => absurd hc List.not_mem_nil⟩
  · obtain ⟨out, hout, hcalls⟩ := rsaLoop_ends (func rsa.ctx) (ssl.rsaSize rsa.ctx - 11)
      (fun len => 1 ≤ len ∧ len ≤ (ssl.rsaSize rsa.ctx : ℤ) - 11) (fun _ => True) (by omega)
      (fun size hsize _ => by split <;> omega) (fun _ _ _ => trivial) src (src.length + 1)
      ⟨src.length, 0, 0, rsa.buf, []⟩ (by simp only; omega) (by simp only; omega) (fun _ => trivial)
    refine ⟨out, by rw [hout]; rfl, ?_⟩
    intro c hc
    exact (hcalls c hc).resolve_left List.not_mem_nil

theorem decrypt_safe (hk : 1 ≤ ssl.rsaSize rsa.ctx) : DecryptSafe ssl debug rsa := by
  intro func src hsrc hlt
  have hpos : 0 < src.length := List.length_pos_iff.2 hsrc
  have hassert : (debug && decide (((src.length : ℕ) : ℤ) ≤ 0)) = false := by
    rw [decide_eq_false (by omega), Bool.and_false]
  have hne : ((ssl.rsaSize rsa.ctx : ℕ) : ℤ) ≠ 0 := by omega
  refine ⟨src.length + 1, ?_⟩
  unfold doRsaDecrypt
  rw [hassert]
  simp only [Bool.false_eq_true, if_false, hne]
  split
  · exact ⟨_, rfl, fun c hc => absurd hc List.not_mem_nil⟩
  · rename_i hmod
    split
    · exact ⟨_, rfl, fun c hc => absurd hc List.not_mem_nil⟩
    · -- the size left is always a number of whole blocks
      have hdvd : ((ssl.rsaSize rsa.ctx : ℕ) : ℤ) ∣ src.length := by
        rw [ne_eq, not_not, Int.tmod_eq_emod_of_nonneg (by omega)] at hmod
        exact Int.dvd_of_emod_eq_zero hmod
      have hwhole : ∀ size : ℤ, 0 < size → ((ssl.rsaSize rsa.ctx : ℕ) : ℤ) ∣ size →
          (if ((ssl.rsaSize rsa.ctx : ℕ) : ℤ) < size then ((ssl.rsaSize rsa.ctx : ℕ) : ℤ) else size) =
            ssl.rsaSize rsa.ctx := by
        intro size hsize hdiv
        have hle := Int.le_of_dvd hsize hdiv
        split <;> omega
      obtain ⟨out, hout, hcalls⟩ := rsaLoop_ends (func rsa.ctx) (ssl.rsaSize rsa.ctx)
        (fun len => len = ssl.rsaSize rsa.ctx) (fun size => (ssl.rsaSize rsa.ctx : ℤ) ∣ size)
        (by omega) hwhole (fun size _ hdiv => Int.dvd_sub hdiv dvd_rfl) src
        (src.length + 1) ⟨src.length, 0, 0, rsa.buf, []⟩ (by simp only; omega) (by simp only; omega)
        (fun _ => hdvd)
      refine ⟨out, by rw [hout]; rfl, ?_⟩
      intro c hc
      exact (hcalls c hc).resolve_left List.not_mem_nil

/-- A key of less than 11 bytes has no size that would be too much for the guard. -/
theorem encryptNeedSize_small {k : ℕ} (hk : k < 11) : encryptNeedSize k 1 ≤ 10 := by
  interval_cases k <;> decide

/-- **A key of up to 11 bytes** already fails on one byte: by the division, or by a call with
a length that is not positive. -/
theorem encrypt_unsafe (hk : ssl.rsaSize rsa.ctx < 12) : ¬ EncryptSafe ssl debug rsa := by
  intro h
  -- one byte, and a primitive that fails
  obtain ⟨fuel, out, hout, hcalls⟩ := h (fun _ _ _ => (0, [])) [0] (by simp) (by norm_num)
  have hassert : (debug && decide ((([0] : List UInt8).length : ℤ) ≤ 0)) = false := by
    rw [decide_eq_false (by norm_num), Bool.and_false]
  unfold doRsaEncrypt at hout
  rw [hassert] at hout
  simp only [Bool.false_eq_true, if_false, List.length_singleton, Nat.cast_one] at hout
  -- a key of 11 bytes leaves no room in a block
  by_cases hzero : ((ssl.rsaSize rsa.ctx : ℕ) : ℤ) - 11 = 0
  · rw [if_pos hzero] at hout
    cases hout
  have hneed := encryptNeedSize_small (k := ssl.rsaSize rsa.ctx) (by omega)
  have hmax : MAX_RSA_BUF = 16384 := rfl
  rw [if_neg hzero, if_neg (by omega)] at hout
  cases fuel with
  | zero => cases hout
  | succ n =>
    rw [rsaLoop, if_pos (by norm_num)] at hout
    simp only [lt_irrefl, if_false, List.nil_append] at hout
    rw [if_pos (by omega)] at hout
    obtain rfl := Except.ok.inj (Option.some.inj hout)
    have hlen := hcalls _ (List.mem_singleton_self _)
    simp only at hlen
    omega

/-- **RSA is safe with a key** exactly when its modulus has at least 12 bytes. -/
theorem rsa_safe_iff (hk : 1 ≤ ssl.rsaSize rsa.ctx) :
    (EncryptSafe ssl debug rsa ∧ DecryptSafe ssl debug rsa) ↔ 12 ≤ ssl.rsaSize rsa.ctx := by
  constructor
  · rintro ⟨henc, -⟩
    by_contra hlt
    exact encrypt_unsafe (not_le.1 hlt) henc
  · intro h12
    exact ⟨encrypt_safe h12, decrypt_safe hk⟩

/-- A key of 128 bytes. -/
theorem rsa_safe_iff_128 :
    EncryptSafe paddingOnly true ⟨128, []⟩ ∧ DecryptSafe paddingOnly true ⟨128, []⟩ :=
  (rsa_safe_iff (by decide)).2 (by decide)

/-- **A key of 11 bytes** is accepted, and the first message is divided by 0. -/
theorem rsa_divides_by_zero : ∃ rsa', cryptoRsaSetPubkey paddingOnly ⟨0, []⟩ [11] = .ok rsa' ∧
    doRsaEncrypt paddingOnly true 2 rsa' padBlock [7] 1 = some (.error .divideByZero) ∧
    ¬ (EncryptSafe paddingOnly true rsa' ∧ DecryptSafe paddingOnly true rsa') :=
  ⟨⟨11, []⟩, rfl, rfl, fun h => encrypt_unsafe (by decide) h.1⟩

end QsfRSA

end Qsf
