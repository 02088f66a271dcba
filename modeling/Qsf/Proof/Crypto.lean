import Qsf.Spec.Crypto

/-!
# Messages of many blocks

What the two loops of `lua_crypto.c` do to a message, a block at a time.

* `rsaLoop_cut`: over a message cut into blocks, the loop stores the results of the
  primitive one behind the other, and calls it once for each block.
* `rsaLoop_ends`: whatever the primitive does, the loop ends, with lengths that are allowed.
* `rsa_round_trip`: what was encrypted block by block is decrypted block by block, and a
  message that is too long is refused.
-/

set_option autoImplicit false

namespace Qsf

/-! ## Sizes -/

/-- **The size a message needs**, for keys of at least 12 bytes. -/
theorem encryptNeedSize_eq {k : ℕ} (hk : 12 ≤ k) (n : ℕ) :
    QsfRSA.encryptNeedSize k n = int32 ((k * (n ⌈/⌉ (k - 11)) : ℕ) : ℤ) := by
  have hblock : (k : ℤ) - 11 = ((k - 11 : ℕ) : ℤ) := by omega
  have hblocks := ceilDiv_eq_div_add n (b := k - 11) (by omega)
  unfold QsfRSA.encryptNeedSize
  simp only [hblock]
  rw [hblocks, Int.tdiv_eq_ediv_of_nonneg (by omega), Int.tmod_eq_emod_of_nonneg (by omega)]
  congr 1
  push_cast
  congr 2
  -- a rest of the message takes a block of its own
  by_cases hrem : 0 < n % (k - 11)
  · rw [if_pos hrem, if_pos (by exact_mod_cast hrem)]
  · rw [if_neg hrem, if_neg (by exact_mod_cast hrem)]

/-! ## The buffer -/

theorem string_storeAt {buf : List Cell} {xs : List UInt8} {calls : List RsaCall}
    (h : 0 < xs.length) :
    (⟨xs.length, storeAt buf 0 xs, calls⟩ : RsaReturn).string = some (xs.map some) := by
  have hpos : (0 : ℤ) < xs.length := by omega
  unfold RsaReturn.string
  simp only [hpos, if_true, Int.toNat_natCast, take_storeAt_zero]

/-! ## The loop over blocks -/

section Loop

variable {func : ℤ → List UInt8 → ℤ × List UInt8} {b fuel dst : ℕ} {buf : List Cell}
  {calls : List RsaCall}

/-- **One round**, over the block `x` with `q` still behind it. -/
theorem rsaLoop_round {x q out : List UInt8} (hx : x ≠ []) (hlen : x.length ≤ b)
    (hq : q ≠ [] → x.length = b) (hfunc : func x.length x = ((out.length : ℤ), out)) (hout : out ≠ [])
    (hsize : q.length < 2147483648) (pre rest : List UInt8) :
    rsaLoop func (pre ++ (x ++ q) ++ rest) b (fuel + 1) ⟨(x ++ q).length, pre.length, dst, buf, calls⟩ =
      rsaLoop func ((pre ++ x) ++ q ++ rest) b fuel
        ⟨q.length, (pre ++ x).length, dst + out.length, storeAt buf dst out,
          calls ++ [⟨x.length, out.length⟩]⟩ := by
  have hpos : 0 < x.length := List.length_pos_iff.2 hx
  have hopos : 0 < out.length := List.length_pos_iff.2 hout
  -- the call gets a full block, or what is left
  have hstep : (if (b : ℤ) < ((x ++ q).length : ℕ) then (b : ℤ) else ((x ++ q).length : ℕ)) = x.length := by
    rw [List.length_append]
    by_cases hnil : q = []
    · subst hnil
      rw [List.length_nil, Nat.add_zero, if_neg (by omega)]
    · have hb := hq hnil
      have hqpos : 0 < q.length := List.length_pos_iff.2 hnil
      rw [if_pos (by omega), hb]
  -- and reads the bytes of `x`
  have hbytes : ((pre ++ (x ++ q) ++ rest).drop pre.length).take x.length = x := by
    rw [List.append_assoc, List.drop_left, List.append_assoc, List.take_left]
  have hleft : int32 (((x ++ q).length : ℕ) - (x.length : ℤ)) = (q.length : ℤ) := by
    rw [List.length_append, int32_of_range] <;> push_cast <;> omega
  have hdata : pre ++ (x ++ q) ++ rest = (pre ++ x) ++ q ++ rest := by
    simp only [List.append_assoc]
  conv_lhs => rw [rsaLoop]
  simp only [hstep, Int.toNat_natCast, hbytes, hfunc, hleft]
  rw [if_pos (by rw [List.length_append]; omega), if_pos (by omega), hdata]
  congr 2
  rw [List.length_append]
  push_cast
  rfl

theorem rsaLoop_done (data : List UInt8) (src : ℤ) :
    rsaLoop func data b (fuel + 1) ⟨0, src, dst, buf, calls⟩ = some ⟨int32 dst, buf, calls⟩ := by
  simp only [rsaLoop, lt_irrefl, if_false]

/-- **The loop over a message** that is cut into the blocks `xs`, when the primitive turns
each block `x` into `enc x`. -/
theorem rsaLoop_cut {m : List UInt8} {xs : List (List UInt8)} (hb : 0 < b) (h : Cut b m xs)
    {enc : List UInt8 → List UInt8}
    (hfunc : ∀ x ∈ xs, func x.length x = (((enc x).length : ℤ), enc x) ∧ enc x ≠ [])
    (hfuel : xs.length < fuel) (hm : m.length < 2147483648) (hdst : dst ≤ buf.length)
    (pre rest : List UInt8) :
    rsaLoop func (pre ++ m ++ rest) b fuel ⟨m.length, pre.length, dst, buf, calls⟩ =
      some ⟨int32 ((dst + (xs.map enc).flatten.length : ℕ) : ℤ), storeAt buf dst (xs.map enc).flatten,
        calls ++ xs.map fun x => ⟨x.length, (enc x).length⟩⟩ := by
  induction h generalizing fuel dst buf calls pre with
  | nil =>
    obtain ⟨n, rfl⟩ : ∃ n, fuel = n + 1 := ⟨fuel - 1, by omega⟩
    rw [List.length_nil, Nat.cast_zero, rsaLoop_done]
    simp only [List.map_nil, List.flatten_nil, List.length_nil, Nat.add_zero, storeAt_nil, List.append_nil]
  | @last x hne hle =>
    -- a round for the last block, and the one that ends the loop
    obtain ⟨n, rfl⟩ : ∃ n, fuel = n + 1 + 1 := ⟨fuel - 2, by rw [List.length_singleton] at hfuel; omega⟩
    obtain ⟨hx, hout⟩ := hfunc x (List.mem_singleton_self x)
    have hround : rsaLoop func (pre ++ (x ++ []) ++ rest) b (n + 1 + 1)
        ⟨(x ++ []).length, pre.length, dst, buf, calls⟩ = _ :=
      rsaLoop_round hne hle (fun h => absurd rfl h) hx hout (by norm_num) pre rest
    rw [List.append_nil] at hround
    rw [hround, List.length_nil, Nat.cast_zero, rsaLoop_done]
    simp only [List.map_cons, List.map_nil, List.flatten_cons, List.flatten_nil, List.append_nil]
  | @cons x q xs hlen hne hcut ih =>
    obtain ⟨n, rfl⟩ : ∃ n, fuel = n + 1 := ⟨fuel - 1, by omega⟩
    obtain ⟨hx, hout⟩ := hfunc x List.mem_cons_self
    have hm' : q.length < 2147483648 := by
      rw [List.length_append] at hm
      omega
    -- a full block is not empty
    have hxne : x ≠ [] := by
      rw [← List.length_pos_iff]
      omega
    rw [rsaLoop_round hxne hlen.le (fun _ => hlen) hx hout hm' pre rest,
      ih (fun y hy => hfunc y (List.mem_cons_of_mem _ hy)) (by rw [List.length_cons] at hfuel; omega) hm'
        (le_length_storeAt hdst _) (pre ++ x), storeAt_append hdst]
    simp only [List.map_cons, List.flatten_cons, List.length_append, Nat.add_assoc, List.append_assoc,
      List.singleton_append]

/-- **The loop of any primitive ends**, and every call has a length that is allowed: `inv`
holds of the size left, round after round. -/
theorem rsaLoop_ends (func : ℤ → List UInt8 → ℤ × List UInt8) (b : ℕ) (ok inv : ℤ → Prop) (hb : 0 < b)
    (hok : ∀ size : ℤ, 0 < size → inv size → ok (if (b : ℤ) < size then b else size))
    (hinv : ∀ size : ℤ, (b : ℤ) < size → inv size → inv (size - b)) (data : List UInt8) :
    ∀ fuel (s : RsaLoop), s.size.toNat < fuel → s.size < 2147483648 → (0 < s.size → inv s.size) →
      ∃ out, rsaLoop func data b fuel s = some out ∧ ∀ c ∈ out.calls, c ∈ s.calls ∨ ok c.len := by
  intro fuel
  -- every round takes at least one byte, so the fuel exceeds the size left
  induction fuel with
  | zero => intro s hfuel; exact absurd hfuel (Nat.not_lt_zero _)
  | succ n ih =>
    intro s hfuel hlt hs
    rw [rsaLoop]
    split
    · rename_i hpos
      have hcall := hok s.size hpos (hs hpos)
      simp only
      set len := if (b : ℤ) < s.size then (b : ℤ) else s.size with hlen
      have hrange : 1 ≤ len ∧ len ≤ s.size := by
        rw [hlen]
        split <;> omega
      have hleft : int32 (s.size - len) = s.size - len := int32_of_range (by omega) (by omega)
      -- something is left only after a full block
      have hnext : 0 < s.size - len → inv (s.size - len) := by
        intro hrest
        have hfull : (b : ℤ) < s.size := by
          by_contra hshort
          rw [hlen, if_neg hshort] at hrest
          omega
        rw [hlen, if_pos hfull]
        exact hinv s.size hfull (hs hpos)
      split
      · rw [hleft]
        obtain ⟨out, hout, hcalls⟩ := ih ⟨s.size - len, s.src + len, _, _, _⟩ (by simp only; omega)
          (by simp only; omega) hnext
        refine ⟨out, hout, ?_⟩
        intro c hc
        rcases hcalls c hc with hold | hnew
        · rcases List.mem_append.1 hold with hold | hold
          · exact .inl hold
          · rw [List.mem_singleton.1 hold]
            exact .inr hcall
        · exact .inr hnew
      · refine ⟨_, rfl, ?_⟩
        intro c hc
        rcases List.mem_append.1 hc with hold | hold
        · exact .inl hold
        · rw [List.mem_singleton.1 hold]
          exact .inr hcall
    · exact ⟨_, rfl, fun c hc => .inl hc⟩

end Loop

namespace QsfRSA

variable {κ : Type} {ssl : OpenSsl κ} {debug : Bool} {rsa enc dec : QsfRSA κ} {fuel k : ℕ}
  {m : List UInt8}

/-! ## `do_rsa_encrypt` and `do_rsa_decrypt` -/

/-- **The guard** decides, for keys of at least 12 bytes, whether the loop runs. -/
theorem doRsaEncrypt_eq (hk : 12 ≤ ssl.rsaSize rsa.ctx) (func : RSAFuncType κ) (src : List UInt8)
    {size : ℤ} (hsize : 0 < size) :
    doRsaEncrypt ssl debug fuel rsa func src size =
      if (MAX_RSA_BUF : ℤ) < encryptNeedSize (ssl.rsaSize rsa.ctx) size then some (.ok ⟨-2, rsa.buf, []⟩)
      else (rsaLoop (func rsa.ctx) src ((ssl.rsaSize rsa.ctx - 11 : ℕ) : ℤ) fuel
        ⟨size, 0, 0, rsa.buf, []⟩).map .ok := by
  have hblock : ((ssl.rsaSize rsa.ctx : ℕ) : ℤ) - 11 = ((ssl.rsaSize rsa.ctx - 11 : ℕ) : ℤ) := by omega
  have hassert : (debug && decide (size ≤ 0)) = false := by
    rw [decide_eq_false (by omega), Bool.and_false]
  have hne : ((ssl.rsaSize rsa.ctx - 11 : ℕ) : ℤ) ≠ 0 := by omega
  unfold doRsaEncrypt
  rw [hassert]
  simp only [Bool.false_eq_true, if_false, hblock, if_neg hne]

/-- **A message that the guard lets through**, cut into its blocks. -/
theorem doRsaEncrypt_blocks {func : RSAFuncType κ} (encb : List UInt8 → List UInt8)
    {xs : List (List UInt8)} (hk : 12 ≤ ssl.rsaSize rsa.ctx) (hm : m ≠ [])
    (hcut : Cut (ssl.rsaSize rsa.ctx - 11) m xs) (hlen : m.length < 2147483648)
    (hguard : encryptNeedSize (ssl.rsaSize rsa.ctx) m.length ≤ (MAX_RSA_BUF : ℤ))
    (hfunc : ∀ x ∈ xs, func rsa.ctx x.length x = (((encb x).length : ℤ), encb x) ∧ encb x ≠ [])
    (hfuel : m.length < fuel) (rest : List UInt8) :
    doRsaEncrypt ssl debug fuel rsa func (m ++ rest) m.length =
      some (.ok ⟨int32 ((xs.map encb).flatten.length : ℤ), storeAt rsa.buf 0 (xs.map encb).flatten,
        xs.map fun x => ⟨x.length, (encb x).length⟩⟩) := by
  have hpos : 0 < m.length := List.length_pos_iff.2 hm
  have hxs : xs.length ≤ m.length := by
    rw [hcut.size (by omega), ceilDiv_le_iff_le_mul (by omega)]
    exact Nat.le_mul_of_pos_left _ (by omega)
  rw [doRsaEncrypt_eq hk func _ (by omega), if_neg (not_lt.2 hguard)]
  have hloop : rsaLoop (func rsa.ctx) ([] ++ m ++ rest) (ssl.rsaSize rsa.ctx - 11 : ℕ) fuel
      ⟨m.length, ([] : List UInt8).length, 0, rsa.buf, []⟩ = _ :=
    rsaLoop_cut (by omega) hcut hfunc (hxs.trans_lt hfuel) hlen (Nat.zero_le _) [] rest
  rw [List.nil_append, List.length_nil, Nat.cast_zero, Nat.zero_add, List.nil_append] at hloop
  rw [hloop]
  rfl

/-- **A text of whole blocks** that fits the buffer, cut into them. -/
theorem doRsaDecrypt_blocks {func : RSAFuncType κ} (decb : List UInt8 → List UInt8)
    {ys : List (List UInt8)} (hk : 12 ≤ ssl.rsaSize dec.ctx) (hne : ys ≠ [])
    (hys : ∀ y ∈ ys, y.length = ssl.rsaSize dec.ctx) (hlen : ys.flatten.length ≤ MAX_RSA_BUF)
    (hfunc : ∀ y ∈ ys, func dec.ctx y.length y = (((decb y).length : ℤ), decb y) ∧ decb y ≠ [])
    (hfuel : ys.length < fuel) :
    doRsaDecrypt ssl debug fuel dec func ys.flatten ys.flatten.length =
      some (.ok ⟨int32 ((ys.map decb).flatten.length : ℤ), storeAt dec.buf 0 (ys.map decb).flatten,
        ys.map fun y => ⟨y.length, (decb y).length⟩⟩) := by
  set k := ssl.rsaSize dec.ctx with hkdef
  have hflat := length_flatten_uniform hys
  -- the text is not empty and a number of whole blocks
  have hcount : 0 < ys.length := List.length_pos_iff.2 hne
  have hpos : 0 < ys.flatten.length := by
    rw [hflat]
    exact Nat.mul_pos (by omega) hcount
  have hmax : MAX_RSA_BUF = 16384 := rfl
  have hmod : ((ys.flatten.length : ℕ) : ℤ).tmod k = 0 := by
    rw [Int.tmod_eq_emod_of_nonneg (by omega), hflat]
    push_cast
    exact Int.mul_emod_right _ _
  have hdiv : ((ys.flatten.length : ℕ) : ℤ).tdiv k = ys.length := by
    rw [Int.tdiv_eq_ediv_of_nonneg (by omega), hflat]
    push_cast
    exact Int.mul_ediv_cancel_left _ (by omega)
  -- the size the guard computes is no more than that of the text
  have hneed : ((k : ℤ) - 11) * ys.length ≤ ys.flatten.length ∧ 0 ≤ ((k : ℤ) - 11) * ys.length := by
    have h11 : ((k : ℤ) - 11) * ys.length = (ys.flatten.length : ℕ) - 11 * (ys.length : ℤ) := by
      rw [hflat]
      push_cast
      ring
    refine ⟨by omega, mul_nonneg (by omega) (by omega)⟩
  have hassert : (debug && decide (((ys.flatten.length : ℕ) : ℤ) ≤ 0)) = false := by
    rw [decide_eq_false (by omega), Bool.and_false]
  have hloop : rsaLoop (func dec.ctx) ([] ++ ys.flatten ++ []) k fuel
      ⟨ys.flatten.length, ([] : List UInt8).length, 0, dec.buf, []⟩ = _ :=
    rsaLoop_cut (by omega) (cut_uniform (by omega) hys) hfunc hfuel (by omega) (Nat.zero_le _) [] []
  rw [List.nil_append, List.append_nil, List.length_nil, Nat.cast_zero, Nat.zero_add,
    List.nil_append] at hloop
  unfold doRsaDecrypt
  rw [hassert]
  simp only [Bool.false_eq_true, if_false, ← hkdef, hmod, hdiv, ne_eq, not_true_eq_false]
  rw [if_neg (by omega), int32_of_range (by omega) (by omega), if_neg (by omega), hloop]
  rfl

/-- **A primitive that encrypts**: a block of up to `k - 11` bytes becomes `k` bytes. -/
def WritesBlocks (k : ℕ) (E : ℤ → List UInt8 → ℤ × List UInt8) : Prop :=
  ∀ x : List UInt8, 1 ≤ x.length → x.length ≤ k - 11 → (E x.length x).1 = k ∧ (E x.length x).2.length = k

/-- **The primitives of a key pair**: `D` turns what `E` writes back into the block. -/
structure InverseBlocks (k : ℕ) (E D : ℤ → List UInt8 → ℤ × List UInt8) : Prop where
  encrypt : WritesBlocks k E
  decrypt : ∀ x : List UInt8, 1 ≤ x.length → x.length ≤ k - 11 →
    D k (E x.length x).2 = ((x.length : ℤ), x)

/-- The block that a primitive writes for `x`. -/
def blockOf (F : ℤ → List UInt8 → ℤ × List UInt8) (x : List UInt8) : List UInt8 := (F x.length x).2

section Blocks

variable {E D : RSAFuncType κ} {xs : List (List UInt8)}

theorem WritesBlocks.length (h : WritesBlocks k (E enc.ctx))
    (hb : ∀ x ∈ xs, 1 ≤ x.length ∧ x.length ≤ k - 11) :
    ∀ y ∈ xs.map (blockOf (E enc.ctx)), y.length = k := by
  intro y hy
  obtain ⟨x, hx, rfl⟩ := List.mem_map.1 hy
  exact (h x (hb x hx).1 (hb x hx).2).2

/-- A text is not shorter than its message. -/
theorem le_textLength (hk : 12 ≤ k) (n : ℕ) : n ≤ k * (n ⌈/⌉ (k - 11)) := by
  have hblocks : n ≤ (k - 11) * (n ⌈/⌉ (k - 11)) := (ceilDiv_le_iff_le_mul (by omega)).1 le_rfl
  exact hblocks.trans (Nat.mul_le_mul_right _ (Nat.sub_le k 11))

/-- **Encryption** of a message cut into the blocks `xs`, when the text fits the buffer. -/
theorem doRsaEncrypt_fits (debug : Bool) (hk : 12 ≤ k) (he : ssl.rsaSize enc.ctx = k)
    (hE : WritesBlocks k (E enc.ctx))
    (hm : m ≠ []) (hfuel : m.length < fuel) (hcut : Cut (k - 11) m xs)
    (hfit : k * (m.length ⌈/⌉ (k - 11)) ≤ MAX_RSA_BUF) :
    (xs.map (blockOf (E enc.ctx))).flatten.length = k * (m.length ⌈/⌉ (k - 11)) ∧
    ∃ calls, doRsaEncrypt ssl debug fuel enc E m m.length =
      some (.ok ⟨(k * (m.length ⌈/⌉ (k - 11)) : ℕ), storeAt enc.buf 0 (xs.map (blockOf (E enc.ctx))).flatten,
        calls⟩) := by
  have hmax : MAX_RSA_BUF = 16384 := rfl
  have hbounds := hcut.bounds (by omega)
  have hneed := encryptNeedSize_eq hk m.length
  have hlen : (xs.map (blockOf (E enc.ctx))).flatten.length = k * (m.length ⌈/⌉ (k - 11)) := by
    rw [length_flatten_uniform (hE.length hbounds), List.length_map, hcut.size (by omega)]
  have hle := le_textLength hk m.length
  refine ⟨hlen, ?_⟩
  have hrun : doRsaEncrypt ssl debug fuel enc E (m ++ []) m.length = _ :=
    doRsaEncrypt_blocks (blockOf (E enc.ctx)) (by omega) hm (by rw [he]; exact hcut) (by omega)
      (by rw [he, hneed, int32_of_range (by omega) (by omega)]; omega) (fun x hx => ?_) hfuel []
  · rw [List.append_nil, hlen, int32_of_range (by omega) (by omega)] at hrun
    exact ⟨_, hrun⟩
  · obtain ⟨hret, hblock⟩ := hE x (hbounds x hx).1 (hbounds x hx).2
    refine ⟨Prod.ext_iff.2 ⟨?_, rfl⟩, ?_⟩
    · rw [hret]
      exact congrArg Nat.cast hblock.symm
    · rw [← List.length_pos_iff]
      exact lt_of_lt_of_eq (by omega) hblock.symm

/-- **Decryption** of the text of a message cut into the blocks `xs`. -/
theorem doRsaDecrypt_fits (debug : Bool) (hk : 12 ≤ k) (hd : ssl.rsaSize dec.ctx = k)
    (hED : InverseBlocks k (E enc.ctx) (D dec.ctx)) (hm : m ≠ []) (hfuel : m.length < fuel)
    (hcut : Cut (k - 11) m xs) (hint : m.length < 2147483648)
    (hfit : (xs.map (blockOf (E enc.ctx))).flatten.length ≤ MAX_RSA_BUF) :
    ∃ calls, doRsaDecrypt ssl debug fuel dec D (xs.map (blockOf (E enc.ctx))).flatten
        (xs.map (blockOf (E enc.ctx))).flatten.length =
      some (.ok ⟨m.length, storeAt dec.buf 0 m, calls⟩) := by
  have hbounds := hcut.bounds (by omega)
  have hlength := hED.encrypt.length hbounds
  set decb : List UInt8 → List UInt8 := fun y => (D dec.ctx k y).2 with hdecb
  have hdec : ∀ x ∈ xs, D dec.ctx k (blockOf (E enc.ctx) x) = ((x.length : ℤ), x) := fun x hx =>
    hED.decrypt x (hbounds x hx).1 (hbounds x hx).2
  -- the blocks that come back are those of the message
  have hback : ((xs.map (blockOf (E enc.ctx))).map decb).flatten = m := by
    have hid : xs.map (decb ∘ blockOf (E enc.ctx)) = xs := by
      refine (List.map_congr_left ?_).trans (List.map_id xs)
      intro x hx
      exact congrArg Prod.snd (hdec x hx)
    rw [List.map_map, hid, hcut.flatten]
  -- there are no more blocks than bytes
  have hblocks : (xs.map (blockOf (E enc.ctx))).length < fuel := by
    rw [List.length_map, hcut.size (by omega)]
    refine lt_of_le_of_lt ?_ hfuel
    rw [ceilDiv_le_iff_le_mul (by omega)]
    exact Nat.le_mul_of_pos_left _ (by omega)
  have hne : xs.map (blockOf (E enc.ctx)) ≠ [] := by
    rw [Ne, List.map_eq_nil_iff]
    rintro rfl
    exact hm hcut.flatten.symm
  have hrun : doRsaDecrypt ssl debug fuel dec D (xs.map (blockOf (E enc.ctx))).flatten
      (xs.map (blockOf (E enc.ctx))).flatten.length = _ :=
    doRsaDecrypt_blocks decb (by omega) hne (by rw [hd]; exact hlength) hfit (fun y hy => ?_) hblocks
  · rw [hback, int32_of_range (by omega) (by omega)] at hrun
    exact ⟨_, hrun⟩
  · obtain ⟨x, hx, rfl⟩ := List.mem_map.1 hy
    have hx' : decb (blockOf (E enc.ctx) x) = x := congrArg Prod.snd (hdec x hx)
    rw [hlength _ hy, hx', hdec x hx]
    refine ⟨rfl, ?_⟩
    rw [← List.length_pos_iff]
    exact (hbounds x hx).1

end Blocks

/-- **Block chaining round-trips.** A message whose text fits the buffer is encrypted into a
text of the size expected, and decrypted from it; a longer one is refused, with the buffer
as it was. -/
theorem rsa_round_trip {E D : RSAFuncType κ} (hk : 12 ≤ k) (he : ssl.rsaSize enc.ctx = k)
    (hd : ssl.rsaSize dec.ctx = k) (hED : InverseBlocks k (E enc.ctx) (D dec.ctx)) (hm : m ≠ [])
    (hfuel : m.length < fuel) :
    (k * (m.length ⌈/⌉ (k - 11)) ≤ MAX_RSA_BUF →
      ∃ out cipher, doRsaEncrypt ssl debug fuel enc E m m.length = some (.ok out) ∧
        out.ret = (k * (m.length ⌈/⌉ (k - 11)) : ℕ) ∧ out.string = some (cipher.map some) ∧
        ∃ out', doRsaDecrypt ssl debug fuel dec D cipher cipher.length = some (.ok out') ∧
          out'.ret = m.length ∧ out'.string = some (m.map some)) ∧
    (MAX_RSA_BUF < k * (m.length ⌈/⌉ (k - 11)) → k * (m.length ⌈/⌉ (k - 11)) < 2147483648 →
      doRsaEncrypt ssl debug fuel enc E m m.length = some (.ok ⟨-2, enc.buf, []⟩)) := by
  have hmax : MAX_RSA_BUF = 16384 := rfl
  have hpos : 0 < m.length := List.length_pos_iff.2 hm
  refine ⟨?_, ?_⟩
  · intro hfit
    obtain ⟨xs, hcut⟩ := exists_cut (b := k - 11) (by omega) m
    obtain ⟨hlen, calls, hrun⟩ := doRsaEncrypt_fits debug hk he hED.encrypt hm hfuel hcut hfit
    have hle := le_textLength hk m.length
    obtain ⟨calls', hrun'⟩ := doRsaDecrypt_fits debug hk hd hED hm hfuel hcut (by omega) (hlen ▸ hfit)
    refine ⟨_, (xs.map (blockOf (E enc.ctx))).flatten, hrun, rfl, ?_, _, hrun', rfl, string_storeAt hpos⟩
    rw [← hlen]
    exact string_storeAt (by omega)
  · intro hlong hint
    rw [doRsaEncrypt_eq (by omega) E m (by omega), he, encryptNeedSize_eq hk m.length,
      int32_of_range (by omega) (by omega), if_pos (by omega)]

/-! ## An example -/

/-- The padding of a block to the size of the key. -/
def padBlock : RSAFuncType ℕ := fun key _ x =>
  let out := [0, 2] ++ List.replicate (key % 2147483648 - 3 - x.length) 255 ++ 0 :: x
  (out.length, out)

/-- Take the padding off. -/
def unpadBlock : RSAFuncType ℕ := fun _ _ y =>
  let x := ((y.drop 2).dropWhile (· = 255)).drop 1
  (x.length, x)

/-- A cipher that only pads. A key is the number of its bytes. -/
def paddingOnly : OpenSsl ℕ where
  rsaSize key := key % 2147483648
  rsaSize_int _ := Nat.mod_lt _ (by norm_num)
  rsaPublicEncrypt := padBlock
  rsaPrivateEncrypt := padBlock
  rsaPublicDecrypt := unpadBlock
  rsaPrivateDecrypt := unpadBlock
  pemReadPublicKey text := text.head?.map UInt8.toNat
  pemReadPrivateKey text := text.head?.map UInt8.toNat

theorem padBlock_writes (hk : 12 ≤ k) (hint : k < 2147483648) : WritesBlocks k (padBlock k) := by
  intro x h1 hx
  have hmod : k % 2147483648 = k := Nat.mod_eq_of_lt hint
  have hlen : (padBlock k x.length x).2.length = k := by
    simp only [padBlock, hmod, List.length_append, List.length_cons, List.length_nil, List.length_replicate]
    omega
  have hret : (padBlock k x.length x).1 = (padBlock k x.length x).2.length := rfl
  exact ⟨by rw [hret, hlen], hlen⟩

theorem padBlock_inverse (hk : 12 ≤ k) (hint : k < 2147483648) :
    InverseBlocks k (padBlock k) (unpadBlock k) where
  encrypt := padBlock_writes hk hint
  decrypt x h1 hx := by
    have hback : ∀ n, (List.replicate n (255 : UInt8) ++ 0 :: x).dropWhile (· = 255) = 0 :: x := by
      intro n
      induction n with
      | zero => rfl
      | succ n ih =>
        rw [List.replicate_succ, List.cons_append, List.dropWhile_cons_of_pos (by decide)]
        exact ih
    simp only [unpadBlock, padBlock, List.cons_append, List.nil_append, List.drop_succ_cons, List.drop_zero,
      hback]

/-- Two bytes, under a key whose blocks have one. -/
theorem rsa_round_trip_two : ∃ out cipher,
    doRsaEncrypt paddingOnly true 3 ⟨12, []⟩ padBlock [7, 8] 2 = some (.ok out) ∧ out.ret = 24 ∧
      out.string = some (cipher.map some) ∧
      ∃ out', doRsaDecrypt paddingOnly true 3 ⟨12, []⟩ unpadBlock cipher cipher.length = some (.ok out') ∧
        out'.ret = 2 ∧ out'.string = some ([7, 8].map some) :=
  (@rsa_round_trip ℕ paddingOnly true ⟨12, []⟩ ⟨12, []⟩ 3 12 [7, 8] padBlock unpadBlock (le_refl 12) rfl rfl
    (padBlock_inverse (le_refl 12) (by norm_num)) (by decide) (by decide)).1 (by decide)

end QsfRSA

end Qsf
