import Qsf.Proof.Base64Encode

/-!
# The decoder of base64

`b64_pton` accepts the texts of RFC 1521, with whitespace anywhere, and stores their data.

* `Held`: between two characters, the bytes stored are those of the quanta read, and the
  bits of the quantum being read.
* `ptonSwitch_spec`: what one character does.
* `ptonLoop_spec`: what the loop does with a string, by induction on the string.
* `pton_accepts`, `decode_clean_iff`, `base64_round_trip`: the decoder against RFC 1521, the
  Lua function around it, and the two functions together.
-/

set_option autoImplicit false

namespace Qsf

open Rfc1521 (value Text bits octets pad)

/-! ## Bits -/

/-- The low bits are or-ed to bits that are higher. -/
theorem ofNat_or (m k : ℕ) {a b : ℕ} (hm : m = 2 ^ k) (h : b < m) :
    UInt8.ofNat (a * m) ||| UInt8.ofNat b = UInt8.ofNat (a * m + b) := by
  subst hm
  rw [← UInt8.ofNat_or, Nat.mul_comm, ← Nat.two_pow_add_eq_or_of_lt h]

theorem ofNat_mod {a b : ℕ} (h : a % 256 = b % 256) : UInt8.ofNat a = UInt8.ofNat b := by
  apply UInt8.toNat_inj.1
  rw [UInt8.toNat_ofNat', UInt8.toNat_ofNat']
  exact h

/-! ## Cells -/

section Cells

variable {buf : List Cell} {xs : List UInt8} {b : UInt8}

theorem getByte_last : getByte (storeAt buf 0 (xs ++ [b])) xs.length = .ok b := by
  have htake := take_storeAt_zero buf (xs ++ [b])
  have hget : (storeAt buf 0 (xs ++ [b]))[xs.length]? = some (some b) := by
    have hlt : xs.length < (xs ++ [b]).length := by simp
    rw [← List.getElem?_take_of_lt hlt, htake]
    simp
  rw [getByte, hget]

theorem putByte_last (h : xs.length < buf.length) (c : UInt8) :
    putByte (storeAt buf 0 (xs ++ [b])) xs.length c = .ok (storeAt buf 0 (xs ++ [c])) := by
  have hlen : (storeAt buf 0 (xs ++ [b])).length = buf.length := length_storeAt (by simp; omega)
  rw [putByte, if_pos (by omega)]
  congr 1
  simp only [storeAt, List.take_zero, List.nil_append, List.map_append, List.map_singleton, List.length_append,
    List.length_singleton, List.append_assoc, List.singleton_append]
  rw [List.set_append_right _ _ (by simp)]
  simp

end Cells

/-! ## One character -/

/-- What the decoder holds between two characters: the bytes `done` of the quanta read, and
the characters of the quantum being read, with their bits in the cells behind `done`. -/
inductive Held (buf : List Cell) (done : List UInt8) : List UInt8 → Pton → Prop
  | zero : Held buf done [] ⟨0, done.length, storeAt buf 0 done⟩
  | one {c0 : UInt8} {d0 : ℕ} : value c0 = some d0 →
      Held buf done [c0] ⟨1, done.length, storeAt buf 0 (done ++ [UInt8.ofNat (d0 * 4)])⟩
  | two {c0 c1 : UInt8} {d0 d1 : ℕ} : value c0 = some d0 → value c1 = some d1 →
      Held buf done [c0, c1] ⟨2, done.length + 1, storeAt buf 0
        (done ++ [UInt8.ofNat (bits [d0, d1] / 16), UInt8.ofNat (bits [d0, d1] % 16 * 16)])⟩
  | three {c0 c1 c2 : UInt8} {d0 d1 d2 : ℕ} : value c0 = some d0 → value c1 = some d1 → value c2 = some d2 →
      Held buf done [c0, c1, c2] ⟨3, done.length + 2, storeAt buf 0
        (done ++ [UInt8.ofNat (bits [d0, d1, d2] / 1024), UInt8.ofNat (bits [d0, d1, d2] / 4),
          UInt8.ofNat (bits [d0, d1, d2] % 4 * 64)])⟩

variable {buf : List Cell} {done cs : List UInt8} {s : Pton} {c : UInt8} {d : ℕ}

/-- The two stores of a character whose bits belong to two bytes: the low bits of the last
byte, and the high bits of the next one. -/
theorem storeBoth (xs : List UInt8) (b : UInt8) {i : ℕ} (hi : i = xs.length)
    (h : xs.length + 1 < buf.length) (x y : UInt8) (state : ℕ) :
    (do
      let old ← getByte (storeAt buf 0 (xs ++ [b])) i
      let target ← putByte (storeAt buf 0 (xs ++ [b])) i (old ||| x)
      let target ← putByte target (i + 1) y
      .ok (⟨state, i + 1, target⟩ : Pton) : Except Base64Stop Pton) =
        .ok ⟨state, i + 1, storeAt buf 0 (xs ++ [b ||| x, y])⟩ := by
  subst hi
  have hroom : 0 + (xs ++ [b ||| x]).length < buf.length := by simp; omega
  have hnext := putByte_next (xs ++ [b ||| x]) hroom y
  rw [Nat.zero_add, List.length_append, List.length_singleton, List.append_assoc, List.singleton_append] at hnext
  simp only [getByte_last, bind, Except.bind, putByte_last (show xs.length < buf.length by omega), hnext]

/-- The store of a character whose bits belong to the last byte. -/
theorem storeLow (xs : List UInt8) (b : UInt8) {i : ℕ} (hi : i = xs.length)
    (h : xs.length < buf.length) (x : UInt8) (state : ℕ) :
    (do
      let old ← getByte (storeAt buf 0 (xs ++ [b])) i
      let target ← putByte (storeAt buf 0 (xs ++ [b])) i (old ||| x)
      .ok (⟨state, i + 1, target⟩ : Pton) : Except Base64Stop Pton) =
        .ok ⟨state, i + 1, storeAt buf 0 (xs ++ [b ||| x])⟩ := by
  subst hi
  simp only [getByte_last, bind, Except.bind, putByte_last h]

/-! The four states, each with the bits that its character gives to the bytes. -/

theorem ptonSwitch_zero (d : ℕ) (hfit : done.length < buf.length) :
    ptonSwitch buf.length d ⟨0, done.length, storeAt buf 0 done⟩ =
      .ok ⟨1, done.length, storeAt buf 0 (done ++ [UInt8.ofNat (d * 4)])⟩ := by
  have hfit' : 0 + done.length < buf.length := by omega
  have hput := putByte_next done hfit' (UInt8.ofNat (d * 4))
  have hshift : UInt8.ofNat (d <<< 2) = UInt8.ofNat (d * 4) := by rw [Nat.shiftLeft_eq]
  rw [Nat.zero_add] at hput
  show (if buf.length ≤ done.length then _ else _) = _
  rw [if_neg (by omega), hshift]
  simp only [hput, bind, Except.bind]

/-- Four bits of the first character and two of this one. -/
theorem ptonSwitch_one (d0 : ℕ) (hd : d < 64) (hfit : done.length + 1 < buf.length) :
    ptonSwitch buf.length d ⟨1, done.length, storeAt buf 0 (done ++ [UInt8.ofNat (d0 * 4)])⟩ =
      .ok ⟨2, done.length + 1, storeAt buf 0
        (done ++ [UInt8.ofNat (bits [d0, d] / 16), UInt8.ofNat (bits [d0, d] % 16 * 16)])⟩ := by
  have and15 : d &&& 0x0f = d % 16 := Nat.and_two_pow_sub_one_eq_mod d 4
  have hbits : bits [d0, d] = d0 * 64 + d := by simp [bits]; omega
  have hx : UInt8.ofNat (d0 * 4) ||| UInt8.ofNat (d >>> 4) = UInt8.ofNat (bits [d0, d] / 16) := by
    rw [ofNat_or 4 2 rfl (by rw [Nat.shiftRight_eq_div_pow]; omega), hbits, Nat.shiftRight_eq_div_pow]
    exact ofNat_mod (by omega)
  have hy : UInt8.ofNat ((d &&& 0x0f) <<< 4) = UInt8.ofNat (bits [d0, d] % 16 * 16) := by
    rw [and15, Nat.shiftLeft_eq, hbits]
    exact ofNat_mod (by omega)
  have hstore := storeBoth done (UInt8.ofNat (d0 * 4)) rfl hfit
    (UInt8.ofNat (d >>> 4)) (UInt8.ofNat ((d &&& 0x0f) <<< 4)) 2
  rw [hx, hy] at hstore
  show (if buf.length ≤ done.length + 1 then _ else _) = _
  rw [if_neg (by omega), hy]
  exact hstore

theorem ptonSwitch_two (d0 d1 : ℕ) (hd : d < 64) (hfit : done.length + 2 < buf.length) :
    ptonSwitch buf.length d ⟨2, done.length + 1, storeAt buf 0
        (done ++ [UInt8.ofNat (bits [d0, d1] / 16), UInt8.ofNat (bits [d0, d1] % 16 * 16)])⟩ =
      .ok ⟨3, done.length + 2, storeAt buf 0
        (done ++ [UInt8.ofNat (bits [d0, d1, d] / 1024), UInt8.ofNat (bits [d0, d1, d] / 4),
          UInt8.ofNat (bits [d0, d1, d] % 4 * 64)])⟩ := by
  have and3 : d &&& 0x03 = d % 4 := Nat.and_two_pow_sub_one_eq_mod d 2
  have hbits : bits [d0, d1, d] = bits [d0, d1] * 64 + d := by simp [bits]; omega
  generalize bits [d0, d1] = n at hbits
  have hx : UInt8.ofNat (n % 16 * 16) ||| UInt8.ofNat (d >>> 2) = UInt8.ofNat (bits [d0, d1, d] / 4) := by
    rw [ofNat_or 16 4 rfl (by rw [Nat.shiftRight_eq_div_pow]; omega), hbits, Nat.shiftRight_eq_div_pow]
    exact ofNat_mod (by omega)
  have hy : UInt8.ofNat ((d &&& 0x03) <<< 6) = UInt8.ofNat (bits [d0, d1, d] % 4 * 64) := by
    rw [and3, Nat.shiftLeft_eq, hbits]
    exact ofNat_mod (by omega)
  have hfirst : n / 16 = bits [d0, d1, d] / 1024 := by omega
  have hroom : (done ++ [UInt8.ofNat (n / 16)]).length + 1 < buf.length := by simp; omega
  have hi : done.length + 1 = (done ++ [UInt8.ofNat (n / 16)]).length := by simp
  have hstore := storeBoth (done ++ [UInt8.ofNat (n / 16)]) (UInt8.ofNat (n % 16 * 16)) hi hroom
    (UInt8.ofNat (d >>> 2)) (UInt8.ofNat ((d &&& 0x03) <<< 6)) 3
  rw [hx, hy, hfirst, List.append_assoc, List.append_assoc, List.singleton_append, List.singleton_append] at hstore
  show (if buf.length ≤ done.length + 1 + 1 then _ else _) = _
  rw [if_neg (by omega), hy, hfirst]
  exact hstore

/-- The quantum is complete. -/
theorem ptonSwitch_three (d0 d1 d2 : ℕ) (hd : d < 64) (hfit : done.length + 2 < buf.length) :
    ptonSwitch buf.length d ⟨3, done.length + 2, storeAt buf 0
        (done ++ [UInt8.ofNat (bits [d0, d1, d2] / 1024), UInt8.ofNat (bits [d0, d1, d2] / 4),
          UInt8.ofNat (bits [d0, d1, d2] % 4 * 64)])⟩ =
      .ok ⟨0, done.length + 3, storeAt buf 0 (done ++ octets (bits [d0, d1, d2, d]))⟩ := by
  have hbits : bits [d0, d1, d2, d] = bits [d0, d1, d2] * 64 + d := by simp [bits]; omega
  generalize bits [d0, d1, d2] = n at hbits
  have hx : UInt8.ofNat (n % 4 * 64) ||| UInt8.ofNat d = UInt8.ofNat (bits [d0, d1, d2, d]) := by
    rw [ofNat_or 64 6 rfl hd, hbits]
    exact ofNat_mod (by omega)
  have hroom : (done ++ [UInt8.ofNat (n / 1024), UInt8.ofNat (n / 4)]).length < buf.length := by simp; omega
  have hi : done.length + 2 = (done ++ [UInt8.ofNat (n / 1024), UInt8.ofNat (n / 4)]).length := by simp
  have hstore := storeLow (done ++ [UInt8.ofNat (n / 1024), UInt8.ofNat (n / 4)]) (UInt8.ofNat (n % 4 * 64)) hi
    hroom (UInt8.ofNat d) 0
  have hquantum : octets (bits [d0, d1, d2, d]) =
      [UInt8.ofNat (n / 1024), UInt8.ofNat (n / 4), UInt8.ofNat (bits [d0, d1, d2, d])] := by
    have h65536 : bits [d0, d1, d2, d] / 65536 = n / 1024 := by omega
    have h256 : bits [d0, d1, d2, d] / 256 = n / 4 := by omega
    rw [octets, h65536, h256]
  rw [hx, List.append_assoc, List.append_assoc] at hstore
  show (if buf.length ≤ done.length + 2 then _ else _) = _
  rw [if_neg (by omega), hquantum]
  exact hstore

/-- **One character of the alphabet**: it is taken, or it ends a quantum. -/
theorem ptonSwitch_spec (h : Held buf done cs s) (hc : value c = some d)
    (hroom : 4 * done.length + 3 * (cs.length + 1) ≤ 4 * buf.length) :
    ∃ s', ptonSwitch buf.length d s = .ok s' ∧
      (cs.length < 3 ∧ Held buf done (cs ++ [c]) s' ∨
        ∃ c0 c1 c2 d0 d1 d2, cs = [c0, c1, c2] ∧ value c0 = some d0 ∧ value c1 = some d1 ∧ value c2 = some d2 ∧
          Held buf (done ++ octets (bits [d0, d1, d2, d])) [] s') := by
  have hd := Rfc1521.value_lt hc
  cases h with
  | zero =>
    simp only [List.length_nil] at hroom
    exact ⟨_, ptonSwitch_zero d (by omega), .inl ⟨by simp, .one hc⟩⟩
  | @one c0 d0 h0 =>
    simp only [List.length_singleton] at hroom
    exact ⟨_, ptonSwitch_one d0 hd (by omega), .inl ⟨by simp, .two h0 hc⟩⟩
  | @two c0 c1 d0 d1 h0 h1 =>
    simp only [List.length_cons, List.length_nil] at hroom
    exact ⟨_, ptonSwitch_two d0 d1 hd (by omega), .inl ⟨by simp, .three h0 h1 hc⟩⟩
  | @three c0 c1 c2 d0 d1 d2 h0 h1 h2 =>
    simp only [List.length_cons, List.length_nil] at hroom
    refine ⟨_, ptonSwitch_three d0 d1 d2 hd (by omega), .inr ⟨c0, c1, c2, d0, d1, d2, rfl, h0, h1, h2, ?_⟩⟩
    have hheld : Held buf (done ++ octets (bits [d0, d1, d2, d])) [] _ := Held.zero
    rw [List.length_append] at hheld
    exact hheld

/-! ## Whitespace -/

/-- The text without its whitespace. -/
def strip (s : List UInt8) : List UInt8 := s.filter fun c => !isspace c

theorem strip_space (hsp : isspace c = true) (text : List UInt8) :
    strip (c :: text) = strip text := by
  simp [strip, hsp]

theorem strip_char (hsp : ¬ isspace c = true) (text : List UInt8) :
    strip (c :: text) = c :: strip text := by
  simp [strip, hsp]

variable {text beyond : List UInt8}

/-- **What a loop over whitespace finds**: the end of the string, or a character. -/
theorem skip_cases (beyond : List UInt8) (h0 : 0 ∉ text) :
    (strip text = [] ∧ (text ++ 0 :: beyond).dropWhile isspace = 0 :: beyond) ∨
    ∃ ch rest, strip text = ch :: strip rest ∧ (text ++ 0 :: beyond).dropWhile isspace = ch :: (rest ++ 0 :: beyond) ∧
      ch ≠ 0 ∧ 0 ∉ rest := by
  induction text with
  | nil => exact .inl ⟨rfl, rfl⟩
  | cons ch text ih =>
    rw [List.mem_cons, not_or] at h0
    by_cases hsp : isspace ch = true
    · have hdrop : (ch :: text ++ 0 :: beyond).dropWhile isspace = (text ++ 0 :: beyond).dropWhile isspace := by
        rw [List.cons_append, List.dropWhile_cons_of_pos hsp]
      rw [strip_space hsp, hdrop]
      exact ih h0.2
    · refine .inr ⟨ch, text, strip_char hsp text, ?_, fun e => h0.1 e.symm, h0.2⟩
      rw [List.cons_append, List.dropWhile_cons_of_neg hsp]

/-! ## The loop -/

theorem Held.length (h : Held buf done cs s)
    (hroom : 4 * done.length + 3 * cs.length ≤ 4 * buf.length) :
    s.target.length = buf.length := by
  cases h with
  | zero => exact length_storeAt (by simp at hroom; omega)
  | one => exact length_storeAt (by simp at hroom ⊢; omega)
  | two => exact length_storeAt (by simp at hroom ⊢; omega)
  | three => exact length_storeAt (by simp at hroom ⊢; omega)

/-- What the decoder should do with a text, behind `done`: store its data, or return -1. -/
structure Decodes (buf : List Cell) (done text : List UInt8) (r : Except Base64Stop Pton) : Prop where
  accept : ∀ data, Text text data → ∃ s, r = .ok s ∧ s.tarindex = (done ++ data).length ∧
    s.target.length = buf.length ∧ s.target.take s.tarindex = (done ++ data).map some
  reject : (¬ ∃ data, Text text data) → ∃ target, r = .error (.minusOne target) ∧ target.length = buf.length

/-- A text that is none, refused. -/
theorem decodes_refused {target : List Cell} (hno : ∀ data, ¬ Text text data)
    (hlen : target.length = buf.length) :
    Decodes buf done text (.error (.minusOne target)) :=
  ⟨fun data h => absurd h (hno data), fun _ => ⟨target, rfl, hlen⟩⟩

/-- **After the last pad**: whitespace, and zero bits in the byte begun. -/
theorem ptonTrailing_eq (h0 : 0 ∉ text) {xs : List UInt8} {b : UInt8} {state i : ℕ}
    (hi : i = xs.length) :
    ptonTrailing (text ++ 0 :: beyond) ⟨state, i, storeAt buf 0 (xs ++ [b])⟩ =
      if strip text = [] ∧ b = 0 then .ok ⟨state, i, storeAt buf 0 (xs ++ [b])⟩
      else .error (.minusOne (storeAt buf 0 (xs ++ [b]))) := by
  subst hi
  unfold ptonTrailing
  rcases skip_cases beyond h0 with ⟨hstrip, hdrop⟩ | ⟨ch, rest, hstrip, hdrop, hch, -⟩
  · rw [hdrop]
    simp only [ne_eq, not_true_eq_false, if_false, getByte_last, bind, Except.bind, ite_not, hstrip, true_and]
  · have hne : ¬ (strip text = [] ∧ b = 0) := by
      rw [hstrip]
      simp
    rw [hdrop, if_neg hne]
    simp only [ne_eq, hch, not_false_eq_true, if_true]

/-- The padding of a quantum: `out` are its whole bytes, and the bits of `n` are left. -/
theorem ptonTrailing_spec {pre out : List UInt8} {n state i : ℕ} (h0 : 0 ∉ text)
    (hi : i = (done ++ out).length) (hn : n < 256)
    (hiff : ∀ data, Text (pre ++ strip text) data ↔ strip text = [] ∧ n = 0 ∧ data = out)
    (hroom : (done ++ out).length < buf.length) :
    Decodes buf done (pre ++ strip text)
      (ptonTrailing (text ++ 0 :: beyond) ⟨state, i, storeAt buf 0 (done ++ out ++ [UInt8.ofNat n])⟩) := by
  have hlen : (storeAt buf 0 (done ++ out ++ [UInt8.ofNat n])).length = buf.length :=
    length_storeAt (by simp at hroom ⊢; omega)
  have hzero : UInt8.ofNat n = 0 ↔ n = 0 := by
    rw [← UInt8.toNat_inj, UInt8.toNat_ofNat', Nat.mod_eq_of_lt hn]
    rfl
  rw [ptonTrailing_eq h0 hi]
  by_cases hok : strip text = [] ∧ UInt8.ofNat n = 0
  · rw [if_pos hok]
    refine ⟨?_, fun hno => absurd ⟨out, (hiff out).2 ⟨hok.1, hzero.1 hok.2, rfl⟩⟩ hno⟩
    intro data hdata
    obtain ⟨-, -, rfl⟩ := (hiff data).1 hdata
    refine ⟨_, rfl, hi, hlen, ?_⟩
    have htake := take_storeAt_zero buf (done ++ data ++ [UInt8.ofNat n])
    have htake' := congrArg (List.take (done ++ data).length) htake
    rw [List.take_take, Nat.min_eq_left (by simp), ← List.map_take, List.take_left] at htake'
    rw [hi]
    exact htake'
  · rw [if_neg hok]
    refine decodes_refused (fun data hdata => hok ?_) hlen
    obtain ⟨hs, hz, -⟩ := (hiff data).1 hdata
    exact ⟨hs, hzero.2 hz⟩

/-- The `switch` after a pad, when something follows in memory. -/
theorem ptonPad_eq {src : List UInt8} (hsrc : src ≠ []) (s : Pton) :
    ptonPad src s =
      match s.state with
      | 0 | 1 => .error (.minusOne s.target)
      | 2 => match src.dropWhile isspace with
        | [] => .error .fault
        | ch :: src => if ch ≠ Pad64 then .error (.minusOne s.target) else ptonTrailing src s
      | 3 => ptonTrailing src s
      | _ => .ok s := by
  cases src with
  | nil => exact absurd rfl hsrc
  | cons ch src => rfl

/-- A pad behind two characters: there must be another one, with whitespace in between. -/
theorem ptonPad_two {c0 c1 : UInt8} {d0 d1 : ℕ} (h0' : value c0 = some d0) (h1 : value c1 = some d1)
    (h0 : 0 ∉ text) (hfit : done.length + 1 < buf.length) :
    Decodes buf done (c0 :: c1 :: pad :: strip text) (ptonPad (text ++ 0 :: beyond) ⟨2, done.length + 1,
      storeAt buf 0 (done ++ [UInt8.ofNat (bits [d0, d1] / 16), UInt8.ofNat (bits [d0, d1] % 16 * 16)])⟩) := by
  have hlen : (storeAt buf 0 (done ++ [UInt8.ofNat (bits [d0, d1] / 16),
      UInt8.ofNat (bits [d0, d1] % 16 * 16)])).length = buf.length := length_storeAt (by simp; omega)
  have hiff := fun data => Rfc1521.text_one (strip text) data h0' h1
  rw [ptonPad_eq (by simp)]
  rcases skip_cases beyond h0 with ⟨hstrip, hdrop⟩ | ⟨ch, rest, hstrip, hdrop, -, hrest⟩
  · simp only [hdrop]
    refine decodes_refused ?_ hlen
    intro data hdata
    have hpad := ((hiff data).1 hdata).1
    rw [hstrip] at hpad
    cases hpad
  · simp only [hdrop]
    by_cases hch : ch = Pad64
    · subst hch
      simp only [ne_eq, not_true_eq_false, if_false]
      have hsplit : c0 :: c1 :: pad :: strip text = [c0, c1, pad, pad] ++ strip rest := by
        rw [hstrip]
        rfl
      have hcells : done ++ [UInt8.ofNat (bits [d0, d1] / 16), UInt8.ofNat (bits [d0, d1] % 16 * 16)] =
          done ++ [UInt8.ofNat (bits [d0, d1] / 16)] ++ [UInt8.ofNat (bits [d0, d1] % 16 * 16)] := by
        rw [List.append_assoc, List.singleton_append]
      rw [hsplit, hcells]
      refine ptonTrailing_spec hrest (by simp) (by omega) ?_ (by simp; omega)
      intro data
      rw [← hsplit]
      refine (hiff data).trans ?_
      rw [hstrip]
      constructor
      · rintro ⟨hs, hz, rfl⟩
        exact ⟨(List.cons.inj hs).2, by omega, rfl⟩
      · rintro ⟨hs, hz, rfl⟩
        rw [hs]
        exact ⟨rfl, by omega, rfl⟩
    · simp only [ne_eq, hch, not_false_eq_true, if_true]
      refine decodes_refused (fun data hdata => hch ?_) hlen
      have hpad := ((hiff data).1 hdata).1
      rw [hstrip] at hpad
      exact (List.cons.inj hpad).1

/-- A pad behind three characters is the last one. -/
theorem ptonPad_three {c0 c1 c2 : UInt8} {d0 d1 d2 : ℕ} (h0' : value c0 = some d0)
    (h1 : value c1 = some d1)
    (h2 : value c2 = some d2) (h0 : 0 ∉ text) (hfit : done.length + 2 < buf.length) :
    Decodes buf done (c0 :: c1 :: c2 :: pad :: strip text) (ptonPad (text ++ 0 :: beyond) ⟨3, done.length + 2,
      storeAt buf 0 (done ++ [UInt8.ofNat (bits [d0, d1, d2] / 1024), UInt8.ofNat (bits [d0, d1, d2] / 4),
        UInt8.ofNat (bits [d0, d1, d2] % 4 * 64)])⟩) := by
  have hcells : done ++ [UInt8.ofNat (bits [d0, d1, d2] / 1024), UInt8.ofNat (bits [d0, d1, d2] / 4),
      UInt8.ofNat (bits [d0, d1, d2] % 4 * 64)] = done ++ [UInt8.ofNat (bits [d0, d1, d2] / 1024),
        UInt8.ofNat (bits [d0, d1, d2] / 4)] ++ [UInt8.ofNat (bits [d0, d1, d2] % 4 * 64)] := by
    rw [List.append_assoc]
    rfl
  have hsplit : c0 :: c1 :: c2 :: pad :: strip text = [c0, c1, c2, pad] ++ strip text := rfl
  rw [ptonPad_eq (by simp), hsplit, hcells]
  refine ptonTrailing_spec h0 (by simp) (by omega) ?_ (by simp; omega)
  intro data
  refine (Rfc1521.text_two _ _ h0' h1 h2).trans ?_
  constructor
  · rintro ⟨hs, hz, rfl⟩
    exact ⟨hs, by omega, rfl⟩
  · rintro ⟨hs, hz, rfl⟩
    exact ⟨hs, by omega, rfl⟩

/-- **A pad**, behind the characters of a quantum. -/
theorem ptonPad_spec (h : Held buf done cs s) (h0 : 0 ∉ text)
    (hroom : 4 * done.length + 3 * (cs.length + 1) ≤ 4 * buf.length) :
    Decodes buf done (cs ++ pad :: strip text) (ptonPad (text ++ 0 :: beyond) s) := by
  have hlen := h.length (by omega)
  cases h with
  | zero =>
    rw [ptonPad_eq (by simp)]
    exact decodes_refused Rfc1521.not_text_pad hlen
  | one =>
    rw [ptonPad_eq (by simp)]
    exact decodes_refused Rfc1521.not_text_pad_second hlen
  | two h0' h1 =>
    simp only [List.length_cons, List.length_nil] at hroom
    exact ptonPad_two h0' h1 h0 (by omega)
  | three h0' h1 h2 =>
    simp only [List.length_cons, List.length_nil] at hroom
    exact ptonPad_three h0' h1 h2 h0 (by omega)

theorem value_eq (ch : UInt8) : strchrBase64 ch = value ch := rfl

/-- At the end of the string: only whole quanta are a text. -/
theorem ptonLoop_end (beyond : List UInt8) (h : Held buf done cs s)
    (hroom : 4 * done.length + 3 * cs.length ≤ 4 * buf.length) :
    Decodes buf done cs (ptonLoop buf.length (0 :: beyond) s) := by
  have hlen := h.length hroom
  have hloop : ptonLoop buf.length (0 :: beyond) s =
      if s.state ≠ 0 then .error (.minusOne s.target) else .ok s := by
    rw [ptonLoop, if_pos rfl]
  rw [hloop]
  cases h with
  | zero =>
    refine ⟨?_, fun hno => absurd ⟨[], .nil⟩ hno⟩
    intro data hdata
    obtain rfl := Rfc1521.text_nil.1 hdata
    refine ⟨_, rfl, by simp, hlen, ?_⟩
    rw [List.append_nil]
    exact take_storeAt_zero buf done
  | one => exact decodes_refused (fun data hdata => absurd hdata.length (by simp)) hlen
  | two => exact decodes_refused (fun data hdata => absurd hdata.length (by simp)) hlen
  | three => exact decodes_refused (fun data hdata => absurd hdata.length (by simp)) hlen

/-- A quantum is complete: its octets are part of the data. -/
theorem Decodes.quantum {c0 c1 c2 : UInt8} {d0 d1 d2 : ℕ} {r : Except Base64Stop Pton}
    (h0 : value c0 = some d0) (h1 : value c1 = some d1) (h2 : value c2 = some d2) (h3 : value c = some d)
    (h : Decodes buf (done ++ octets (bits [d0, d1, d2, d])) text r) :
    Decodes buf done (c0 :: c1 :: c2 :: c :: text) r := by
  have hquantum := fun data => Rfc1521.text_quantum text data h0 h1 h2 h3
  constructor
  · intro data hdata
    obtain ⟨data', rfl, hdata'⟩ := (hquantum data).1 hdata
    rw [← List.append_assoc]
    exact h.accept data' hdata'
  · intro hno
    apply h.reject
    rintro ⟨data', hdata'⟩
    exact hno ⟨_, (hquantum _).2 ⟨data', rfl, hdata'⟩⟩

/-- **The loop**, over any string that ends with its first NUL. -/
theorem ptonLoop_spec (beyond text : List UInt8) :
    ∀ {done cs : List UInt8} {s : Pton}, Held buf done cs s →
    0 ∉ text → 4 * done.length + 3 * (cs.length + text.length) ≤ 4 * buf.length →
    Decodes buf done (cs ++ strip text) (ptonLoop buf.length (text ++ 0 :: beyond) s) := by
  induction text with
  | nil =>
    intro done cs s h _ hroom
    have hstrip : cs ++ strip [] = cs := List.append_nil cs
    rw [hstrip]
    exact ptonLoop_end beyond h hroom
  | cons ch text ih =>
    intro done cs s h h0 hroom
    rw [List.mem_cons, not_or] at h0
    rw [List.length_cons] at hroom
    have hch : ch ≠ 0 := fun e => h0.1 e.symm
    rw [List.cons_append, ptonLoop, if_neg hch]
    by_cases hsp : isspace ch = true
    · rw [if_pos hsp, strip_space hsp]
      exact ih h h0.2 (by omega)
    rw [if_neg hsp, strip_char hsp]
    by_cases hpad : ch = Pad64
    · subst hpad
      rw [if_pos rfl]
      exact ptonPad_spec h h0.2 (by omega)
    rw [if_neg hpad, value_eq]
    cases hval : value ch with
    | none =>
      refine decodes_refused ?_ (h.length (by omega))
      intro data hdata
      rcases hdata.chars ch (by simp) with ⟨d, hd⟩ | hp
      · rw [hval] at hd
        cases hd
      · exact hpad hp
    | some d =>
      obtain ⟨s', hsw, hheld⟩ := ptonSwitch_spec h hval (by omega)
      simp only [hsw, bind, Except.bind]
      rcases hheld with ⟨hcs, hheld⟩ | ⟨c0, c1, c2, d0, d1, d2, rfl, h0', h1, h2, hheld⟩
      · have hnext := ih hheld h0.2 (by simp; omega)
        rw [List.append_assoc, List.singleton_append] at hnext
        exact hnext
      · simp only [List.length_cons, List.length_nil] at hroom
        exact (ih hheld h0.2 (by simp [octets]; omega)).quantum h0' h1 h2 hval

/-! ## `b64_pton`, as `base64_decode` calls it -/

theorem lt_decodeLen (n : ℕ) : 3 * n ≤ 4 * b64DecodeLen n := by
  unfold b64DecodeLen
  omega

/-- What `base64_decode` gets from the decoder, for a string that starts with `text` and a
NUL. -/
theorem pton_spec {s : List UInt8} (rest : List UInt8) (h0 : 0 ∉ text)
    (hs : s ++ [0] = text ++ 0 :: rest) :
    ∃ r target, codecResult (b64Pton (s ++ [0]) (qsfMalloc (b64DecodeLen s.length)) (b64DecodeLen s.length)) =
        some (r, target) ∧ target.length = b64DecodeLen s.length ∧
      (∀ data, Text (strip text) data → r = data.length ∧ data.length ≤ b64DecodeLen s.length ∧
        target.take data.length = data.map some) ∧
      ((¬ ∃ data, Text (strip text) data) → r = -1) := by
  have hlen : (qsfMalloc (b64DecodeLen s.length)).length = b64DecodeLen s.length := List.length_replicate
  have hle : text.length ≤ s.length := by
    have hl := congrArg List.length hs
    simp only [List.length_append, List.length_cons, List.length_nil] at hl
    omega
  have hheld : Held (qsfMalloc (b64DecodeLen s.length)) [] [] ⟨0, 0, qsfMalloc (b64DecodeLen s.length)⟩ := by
    have hz : Held (qsfMalloc (b64DecodeLen s.length)) [] [] _ := Held.zero
    rw [storeAt_nil] at hz
    exact hz
  have hspec := ptonLoop_spec rest text hheld h0 (by
    have hroom := lt_decodeLen s.length
    simp only [List.length_nil, hlen]
    omega)
  rw [List.nil_append, hlen] at hspec
  rw [hs, b64Pton]
  by_cases hex : ∃ data, Text (strip text) data
  · obtain ⟨data0, hdata0⟩ := hex
    obtain ⟨s', hs', hidx, hlen', -⟩ := hspec.accept data0 hdata0
    simp only [hs', bind, Except.bind, codecResult]
    refine ⟨_, _, rfl, hlen'.trans hlen, ?_, fun hno => absurd ⟨data0, hdata0⟩ hno⟩
    intro data hdata
    obtain ⟨s'', hs'', hidx', hlen'', htake⟩ := hspec.accept data hdata
    obtain rfl : s' = s'' := Except.ok.inj (hs'.symm.trans hs'')
    rw [List.nil_append] at hidx' htake
    have hdle : data.length ≤ b64DecodeLen s.length := by
      have hl := congrArg List.length htake
      rw [List.length_take, List.length_map] at hl
      omega
    rw [hidx'] at htake ⊢
    exact ⟨rfl, hdle, htake⟩
  · obtain ⟨target, htarget, hlen'⟩ := hspec.reject hex
    simp only [htarget, bind, Except.bind, codecResult]
    exact ⟨_, _, rfl, hlen'.trans hlen, fun data hdata => absurd ⟨data, hdata⟩ hex, fun _ => rfl⟩

/-- **What `base64.decode` accepts.** For every string without NUL, nothing outside of the
target is read or written; the decoder succeeds if and only if the string without its
whitespace is a text of RFC 1521, and stores the data of that text. -/
theorem pton_accepts {s : List UInt8} (h0 : 0 ∉ s) :
    ∃ r target, codecResult (b64Pton (s ++ [0]) (qsfMalloc (b64DecodeLen s.length)) (b64DecodeLen s.length)) =
        some (r, target) ∧
      (r ≠ -1 ↔ ∃ data, Text (strip s) data) ∧
      ∀ data, Text (strip s) data → r = data.length ∧ target.take data.length = data.map some := by
  obtain ⟨r, target, heq, -, haccept, hreject⟩ := pton_spec [] h0 rfl
  refine ⟨r, target, heq, ⟨?_, ?_⟩, ?_⟩
  · intro hr
    by_contra hno
    exact hr (hreject hno)
  · rintro ⟨data, hdata⟩
    rw [(haccept data hdata).1]
    omega
  · intro data hdata
    obtain ⟨hr, -, htake⟩ := haccept data hdata
    exact ⟨hr, htake⟩

/-- `"QQ = ="`. -/
theorem pton_accepts_spaces :
    ∃ r target, codecResult (b64Pton [81, 81, 32, 61, 32, 61, 0] (qsfMalloc 5) 5) = some (r, target) ∧ r ≠ -1 := by
  obtain ⟨r, target, heq, hiff, -⟩ := pton_accepts (s := [81, 81, 32, 61, 32, 61]) (by decide)
  have hq : value 81 = some 16 := by decide +kernel
  have htext : Text [81, 81, 61, 61] [65] := Text.one hq hq (by decide)
  exact ⟨r, target, heq, hiff.2 ⟨_, htext⟩⟩

/-! ## `base64.decode` -/

/-- A call of `base64.decode` that is right: the buffer is released, the length of the string
is the number of bytes stored and stays inside the buffer, and the string, when there is one
and not a failure, is the data of the whole argument. -/
structure DecodesCleanly (s : List UInt8) (out : Base64Return) : Prop where
  released : out.released = true
  stored : ∃ target, codecResult (b64Pton (s ++ [0]) (qsfMalloc (b64DecodeLen s.length)) (b64DecodeLen s.length)) =
    some ((out.len : ℤ), target)
  bounded : out.len ≤ out.needlen
  whole : ∀ string, out.string = some string → ∃ data, Text (strip s) data ∧ string = data.map some

theorem pushOutbuf_fits {needlen n : ℕ} {outbuf : List Cell} (h : n ≤ outbuf.length)
    (hn : n < 18446744073709551616) : pushOutbuf needlen n outbuf = ⟨needlen, n, some (outbuf.take n), true⟩ := by
  rw [pushOutbuf, sizeT_natCast hn, if_pos h]

theorem decodeLen_lt {n : ℕ} (h : n < 2147483648) : b64DecodeLen n < 18446744073709551615 := by
  unfold b64DecodeLen
  omega

/-- The call on a text. -/
theorem base64Decode_text {s data : List UInt8} (hlen : s.length < 2147483648)
    (htext : Text (strip s) data) :
    base64Decode s = some ⟨b64DecodeLen s.length, data.length, some (data.map some), true⟩ ∧
    ∃ target, codecResult (b64Pton (s ++ [0]) (qsfMalloc (b64DecodeLen s.length)) (b64DecodeLen s.length)) =
      some ((data.length : ℤ), target) ∧ data.length ≤ b64DecodeLen s.length := by
  have h0 : 0 ∉ s := by
    intro hin
    rcases htext.chars 0 (List.mem_filter.2 ⟨hin, by decide⟩) with ⟨d, hd⟩ | hp
    · exact absurd hd (by rw [show value 0 = none from by decide +kernel]; simp)
    · cases hp
  obtain ⟨r, target, heq, hlen', haccept, -⟩ := pton_spec [] h0 rfl
  obtain ⟨rfl, hle, htake⟩ := haccept data htext
  have hmax := decodeLen_lt hlen
  refine ⟨?_, target, heq, hle⟩
  simp only [base64Decode, heq, Option.map_some]
  rw [pushOutbuf_fits (by omega) (by omega), htake]

/-- **`base64.decode` fails cleanly** exactly when it does not fail: when its argument,
without whitespace, is a text of RFC 1521. -/
theorem decode_clean_iff (s : List UInt8) (hlen : s.length < 536870912) :
    ∃ out, base64Decode s = some out ∧ (DecodesCleanly s out ↔ ∃ data, Text (strip s) data) := by
  obtain ⟨text, rest, hs, h0⟩ := List.eq_append_cons_of_mem (show (0 : UInt8) ∈ s ++ [0] by simp)
  obtain ⟨r, target, heq, hlen', -, -⟩ := pton_spec _ h0 hs
  have hmax := decodeLen_lt (n := s.length) (by omega)
  have hout : base64Decode s = some (pushOutbuf (b64DecodeLen s.length) r target) := by
    simp only [base64Decode, heq, Option.map_some]
  refine ⟨_, hout, ?_, ?_⟩
  · intro h
    have hrel := h.released
    unfold pushOutbuf at hrel h
    split at hrel
    · rename_i hfit
      rw [if_pos hfit] at h
      obtain ⟨data, hdata, -⟩ := h.whole _ rfl
      exact ⟨data, hdata⟩
    · cases hrel
  · rintro ⟨data, hdata⟩
    obtain ⟨hdec, target', heq', hle⟩ := base64Decode_text (by omega) hdata
    rw [heq] at heq'
    obtain ⟨rfl, rfl⟩ := Prod.mk.inj (Option.some.inj heq')
    rw [pushOutbuf_fits (by omega) (by omega)]
    refine ⟨rfl, ⟨target, heq⟩, hle, fun string hstring => ⟨data, hdata, ?_⟩⟩
    rw [hout, pushOutbuf_fits (by omega) (by omega)] at hdec
    have hstr := congrArg Base64Return.string (Option.some.inj hdec)
    exact Option.some.inj (hstring.symm.trans hstr)

/-- `"QQ=="`. -/
theorem decode_clean_iff_one : ∃ out, base64Decode [81, 81, 61, 61] = some out ∧
    DecodesCleanly [81, 81, 61, 61] out := by
  obtain ⟨out, hout, hiff⟩ := decode_clean_iff [81, 81, 61, 61] (by decide)
  have hq : value 81 = some 16 := by decide +kernel
  have htext : Text [81, 81, 61, 61] [65] := Text.one hq hq (by decide)
  exact ⟨out, hout, hiff.2 ⟨_, htext⟩⟩

/-- `"A"` is no text: -1 becomes the length of the string. Of a text with a NUL in it, only
the part in front is decoded. -/
theorem decode_fails_badly :
    (∃ out, base64Decode [65] = some out ∧ out.len = 18446744073709551615 ∧ ¬ DecodesCleanly [65] out) ∧
    ∃ out, base64Decode [81, 81, 61, 61, 0, 65] = some out ∧ out.string = some [some 65] ∧
      ¬ DecodesCleanly [81, 81, 61, 61, 0, 65] out := by
  refine ⟨⟨⟨1, 18446744073709551615, none, false⟩, by decide +kernel, rfl, ?_⟩,
    ⟨⟨5, 1, some [some 65], true⟩, by decide +kernel, rfl, ?_⟩⟩
  · intro h
    exact absurd h.released (by decide)
  · intro h
    obtain ⟨data, htext, -⟩ := h.whole _ rfl
    rcases htext.chars 0 (by decide) with ⟨d, hd⟩ | hp
    · rw [show value 0 = none from by decide +kernel] at hd
      cases hd
    · exact absurd hp (by decide)

/-! ## Both functions -/

theorem letter_not_space : ∀ c ∈ Rfc1521.alphabet, isspace c = false := by decide +kernel

/-- A text that the encoder writes has no whitespace. -/
theorem strip_encode (s : List UInt8) : strip (Rfc1521.encode s) = Rfc1521.encode s := by
  obtain ⟨body, k, heq, -, hbody⟩ := Rfc1521.encode_chars s
  apply List.filter_eq_self.2
  intro c hc
  rw [heq] at hc
  rcases List.mem_append.1 hc with hc | hc
  · rw [letter_not_space c (hbody c hc)]
    rfl
  · rw [List.eq_of_mem_replicate hc]
    decide

/-- **Base64 round-trips.** The text of a string has four characters for every three bytes
begun, letters and at most two pads, and decodes to the string; no call accesses anything
outside of its buffer. -/
theorem base64_round_trip (s : List UInt8) (hpos : 1 ≤ s.length) (hlen : s.length < 536870912) :
    ∃ text, base64Encode s =
        some ⟨(b64EncodeLen (UInt64.ofNat s.length)).toNat, text.length, some (text.map some), true⟩ ∧
      text.length = 4 * (s.length ⌈/⌉ 3) ∧
      (∃ body k, text = body ++ List.replicate k Pad64 ∧ k ≤ 2 ∧ ∀ c ∈ body, c ∈ Base64) ∧
      base64Decode text = some ⟨b64DecodeLen text.length, s.length, some (s.map some), true⟩ := by
  have hsize := encodeLen_toNat (n := s.length) (by omega) (by omega)
  have htext := Rfc1521.length_encode s
  have hceil : s.length ⌈/⌉ 3 = (s.length + 2) / 3 := Nat.ceilDiv_eq_add_pred_div s.length 3
  refine ⟨Rfc1521.encode s, ?_, htext, Rfc1521.encode_chars s, ?_⟩
  · have hloop := ntopLoop_encode (b64EncodeLen (UInt64.ofNat s.length)).toNat s 0
      (qsfMalloc _) List.length_replicate (by omega) (by omega)
    rw [Nat.zero_add] at hloop
    have hbuf : (storeAt (qsfMalloc (b64EncodeLen (UInt64.ofNat s.length)).toNat) 0
        (Rfc1521.encode s ++ [0])).length = _ := length_storeAt (by simp [qsfMalloc]; omega)
    have htake := congrArg (List.take (Rfc1521.encode s).length)
      (take_storeAt_zero (qsfMalloc (b64EncodeLen (UInt64.ofNat s.length)).toNat) (Rfc1521.encode s ++ [0]))
    rw [List.take_take, Nat.min_eq_left (by simp), ← List.map_take, List.take_left] at htake
    simp only [base64Encode, b64Ntop]
    rw [← Int.natCast_zero, hloop]
    simp only [codecResult, Option.map_some]
    rw [pushOutbuf_fits (by rw [hbuf]; simp [qsfMalloc]; omega) (by omega), htake]
  · have hdata : Text (strip (Rfc1521.encode s)) s := by
      rw [strip_encode]
      exact Rfc1521.text_encode s
    exact (base64Decode_text (by omega) hdata).1

/-- One byte. -/
theorem base64_round_trip_one : ∃ text, text.length = 4 ∧
    base64Decode text = some ⟨3, 1, some [some 65], true⟩ := by
  obtain ⟨text, -, hlen, -, hdec⟩ := base64_round_trip [65] (by decide) (by decide)
  have h4 : text.length = 4 := by rw [hlen]; rfl
  rw [h4] at hdec
  exact ⟨text, h4, hdec⟩

end Qsf
