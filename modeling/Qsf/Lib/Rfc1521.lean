import Qsf.Lib.Blocks

/-!
# Base64 of RFC 1521

Characters of a 64-letter alphabet stand for six bits each; four of them are a quantum of
24 bits, three octets. `Text text data` says that `text` is a text of `data`: quanta, and
at the end possibly a quantum that was filled up with zero bits and padded.

* `Text.chars`, `Text.length`: what a text consists of.
* `text_quantum`, `text_one`, `text_two`, `not_text_pad`: a text whose beginning is known.
* `text_encode`, `length_encode`, `encode_chars`: `encode` writes a text of its argument.
-/

set_option autoImplicit false

namespace Rfc1521

/-- Table 1: `A`-`Z`, `a`-`z`, `0`-`9`, `+`, `/`. -/
def alphabet : List UInt8 :=
  (List.range' 65 26 ++ List.range' 97 26 ++ List.range' 48 10 ++ [43, 47]).map UInt8.ofNat

/-- `=`. -/
def pad : UInt8 := 61

/-- The six bits a character stands for. -/
def value (c : UInt8) : Option ℕ := alphabet.idxOf? c

/-- The character for six bits. -/
def letter (d : ℕ) : UInt8 := alphabet.getD d 0

/-- The bits of some characters in a row. -/
def bits (ds : List ℕ) : ℕ := ds.foldl (fun n d => 64 * n + d) 0

/-- The octets of 24 bits. -/
def octets (n : ℕ) : List UInt8 := [UInt8.ofNat (n / 65536), UInt8.ofNat (n / 256), UInt8.ofNat n]

/-- `text` is a text of `data`. -/
inductive Text : List UInt8 → List UInt8 → Prop
  | nil : Text [] []
  | quantum {c0 c1 c2 c3 : UInt8} {d0 d1 d2 d3 : ℕ} {text data : List UInt8} :
      value c0 = some d0 → value c1 = some d1 → value c2 = some d2 → value c3 = some d3 →
      Text text data → Text (c0 :: c1 :: c2 :: c3 :: text) (octets (bits [d0, d1, d2, d3]) ++ data)
  /-- Eight bits, and four that are zero. -/
  | one {c0 c1 : UInt8} {d0 d1 : ℕ} :
      value c0 = some d0 → value c1 = some d1 → bits [d0, d1] % 16 = 0 →
      Text [c0, c1, pad, pad] [UInt8.ofNat (bits [d0, d1] / 16)]
  /-- Sixteen bits, and two that are zero. -/
  | two {c0 c1 c2 : UInt8} {d0 d1 d2 : ℕ} :
      value c0 = some d0 → value c1 = some d1 → value c2 = some d2 → bits [d0, d1, d2] % 4 = 0 →
      Text [c0, c1, c2, pad]
        [UInt8.ofNat (bits [d0, d1, d2] / 1024), UInt8.ofNat (bits [d0, d1, d2] / 4)]

/-! ## The alphabet -/

theorem value_letter : ∀ d < 64, value (letter d) = some d := by decide +kernel

theorem letter_mem : ∀ d < 64, letter d ∈ alphabet := by decide +kernel

theorem value_pad : value pad = none := by decide +kernel

variable {c c0 c1 c2 c3 : UInt8} {d d0 d1 d2 d3 : ℕ} {text data rest : List UInt8}

theorem value_lt (h : value c = some d) : d < 64 := by
  have hlen : alphabet.length = 64 := by decide
  obtain ⟨hlt, -⟩ := List.idxOf?_eq_some_iff.1 h
  omega

theorem ne_pad (h : value c = some d) : c ≠ pad := by
  rintro rfl
  rw [value_pad] at h
  cases h

/-! ## What a text consists of -/

theorem Text.chars (h : Text text data) : ∀ c ∈ text, (∃ d, value c = some d) ∨ c = pad := by
  induction h with
  | nil => simp
  | quantum h0 h1 h2 h3 _ ih =>
    intro c hc
    simp only [List.mem_cons] at hc
    rcases hc with rfl | rfl | rfl | rfl | hc
    · exact .inl ⟨_, h0⟩
    · exact .inl ⟨_, h1⟩
    · exact .inl ⟨_, h2⟩
    · exact .inl ⟨_, h3⟩
    · exact ih c hc
  | one h0 h1 _ =>
    intro c hc
    simp only [List.mem_cons, List.not_mem_nil, or_false] at hc
    rcases hc with rfl | rfl | rfl | rfl
    · exact .inl ⟨_, h0⟩
    · exact .inl ⟨_, h1⟩
    · exact .inr rfl
    · exact .inr rfl
  | two h0 h1 h2 _ =>
    intro c hc
    simp only [List.mem_cons, List.not_mem_nil, or_false] at hc
    rcases hc with rfl | rfl | rfl | rfl
    · exact .inl ⟨_, h0⟩
    · exact .inl ⟨_, h1⟩
    · exact .inl ⟨_, h2⟩
    · exact .inr rfl

/-- A text consists of whole quanta. -/
theorem Text.length (h : Text text data) : text.length % 4 = 0 := by
  induction h with
  | nil => rfl
  | quantum _ _ _ _ _ ih =>
    simp only [List.length_cons]
    omega
  | one _ _ _ => simp
  | two _ _ _ _ => simp

/-! ## Texts whose beginning is known -/

theorem text_nil : Text [] data ↔ data = [] := by
  constructor
  · intro h
    cases h
    rfl
  · rintro rfl
    exact .nil

/-- **A quantum of four letters.** -/
theorem text_quantum (rest data : List UInt8) (h0 : value c0 = some d0) (h1 : value c1 = some d1)
    (h2 : value c2 = some d2) (h3 : value c3 = some d3) : Text (c0 :: c1 :: c2 :: c3 :: rest) data ↔
      ∃ data', data = octets (bits [d0, d1, d2, d3]) ++ data' ∧ Text rest data' := by
  constructor
  · intro h
    cases h with
    | quantum k0 k1 k2 k3 hrest =>
      rw [h0] at k0
      rw [h1] at k1
      rw [h2] at k2
      rw [h3] at k3
      cases k0
      cases k1
      cases k2
      cases k3
      exact ⟨_, rfl, hrest⟩
    | one => exact absurd rfl (ne_pad h3)
    | two => exact absurd rfl (ne_pad h3)
  · rintro ⟨data', rfl, hrest⟩
    exact .quantum h0 h1 h2 h3 hrest

/-- No quantum starts with a pad. -/
theorem not_text_pad (data : List UInt8) : ¬ Text (pad :: rest) data := by
  intro h
  cases h with
  | quantum h0 => exact ne_pad h0 rfl
  | one h0 => exact ne_pad h0 rfl
  | two h0 => exact ne_pad h0 rfl

/-- None has one in its second place. -/
theorem not_text_pad_second (data : List UInt8) : ¬ Text (c0 :: pad :: rest) data := by
  intro h
  cases h with
  | quantum _ h1 => exact ne_pad h1 rfl
  | one _ h1 => exact ne_pad h1 rfl
  | two _ h1 => exact ne_pad h1 rfl

/-- **Two letters and a pad.** -/
theorem text_one (rest data : List UInt8) (h0 : value c0 = some d0) (h1 : value c1 = some d1) :
    Text (c0 :: c1 :: pad :: rest) data ↔
      rest = [pad] ∧ bits [d0, d1] % 16 = 0 ∧ data = [UInt8.ofNat (bits [d0, d1] / 16)] := by
  constructor
  · intro h
    cases h with
    | quantum _ _ k2 => exact absurd rfl (ne_pad k2)
    | one k0 k1 hz =>
      rw [h0] at k0
      rw [h1] at k1
      cases k0
      cases k1
      exact ⟨rfl, hz, rfl⟩
    | two _ _ k2 => exact absurd rfl (ne_pad k2)
  · rintro ⟨rfl, hz, rfl⟩
    exact .one h0 h1 hz

/-- **Three letters and a pad.** -/
theorem text_two (rest data : List UInt8) (h0 : value c0 = some d0) (h1 : value c1 = some d1)
    (h2 : value c2 = some d2) :
    Text (c0 :: c1 :: c2 :: pad :: rest) data ↔
      rest = [] ∧ bits [d0, d1, d2] % 4 = 0 ∧
        data = [UInt8.ofNat (bits [d0, d1, d2] / 1024), UInt8.ofNat (bits [d0, d1, d2] / 4)] := by
  constructor
  · intro h
    cases h with
    | quantum _ _ _ k3 => exact absurd rfl (ne_pad k3)
    | one => exact absurd rfl (ne_pad h2)
    | two k0 k1 k2 hz =>
      rw [h0] at k0
      rw [h1] at k1
      rw [h2] at k2
      cases k0
      cases k1
      cases k2
      exact ⟨rfl, hz, rfl⟩
  · rintro ⟨rfl, hz, rfl⟩
    exact .two h0 h1 h2 hz

/-! ## Writing a text -/

/-- The text of some data; bits that are missing at the end are zero. -/
def encode : List UInt8 → List UInt8
  | b0 :: b1 :: b2 :: rest =>
    let n := (b0.toNat * 256 + b1.toNat) * 256 + b2.toNat
    letter (n / 262144) :: letter (n / 4096 % 64) :: letter (n / 64 % 64) :: letter (n % 64) :: encode rest
  | [b0, b1] =>
    let n := (b0.toNat * 256 + b1.toNat) * 4
    [letter (n / 4096), letter (n / 64 % 64), letter (n % 64), pad]
  | [b0] =>
    let n := b0.toNat * 16
    [letter (n / 64), letter (n % 64), pad, pad]
  | [] => []

/-- Induction by three octets. -/
@[elab_as_elim] theorem octets_induction {P : List UInt8 → Prop}
    (quantum : ∀ b0 b1 b2 rest, P rest → P (b0 :: b1 :: b2 :: rest)) (two : ∀ b0 b1, P [b0, b1])
    (one : ∀ b0, P [b0]) (nil : P []) : ∀ s, P s
  | b0 :: b1 :: b2 :: rest => quantum b0 b1 b2 rest (octets_induction quantum two one nil rest)
  | [b0, b1] => two b0 b1
  | [b0] => one b0
  | [] => nil

theorem octet_eq {b : UInt8} {n : ℕ} (h : n % 256 = b.toNat) : UInt8.ofNat n = b := by
  apply UInt8.toNat_inj.1
  rw [UInt8.toNat_ofNat', h]

/-- **The text of some data** is a text of it. -/
theorem text_encode (s : List UInt8) : Text (encode s) s := by
  induction s using octets_induction with
  | quantum b0 b1 b2 rest ih =>
    have hb0 := b0.toNat_lt
    have hb1 := b1.toNat_lt
    have hb2 := b2.toNat_lt
    set n := (b0.toNat * 256 + b1.toNat) * 256 + b2.toNat with hn
    have hbits : bits [n / 262144, n / 4096 % 64, n / 64 % 64, n % 64] = n := by
      simp only [bits, List.foldl_cons, List.foldl_nil]
      omega
    have h := Text.quantum (value_letter (n / 262144) (by omega)) (value_letter (n / 4096 % 64) (by omega))
      (value_letter (n / 64 % 64) (by omega)) (value_letter (n % 64) (by omega)) ih
    rw [hbits, octets, octet_eq (b := b0) (by omega), octet_eq (b := b1) (by omega),
      octet_eq (b := b2) (by omega)] at h
    rw [encode]
    exact h
  | two b0 b1 =>
    have hb0 := b0.toNat_lt
    have hb1 := b1.toNat_lt
    set n := (b0.toNat * 256 + b1.toNat) * 4 with hn
    have hbits : bits [n / 4096, n / 64 % 64, n % 64] = n := by
      simp only [bits, List.foldl_cons, List.foldl_nil]
      omega
    have h := Text.two (value_letter (n / 4096) (by omega)) (value_letter (n / 64 % 64) (by omega))
      (value_letter (n % 64) (by omega)) (by rw [hbits]; omega)
    rw [hbits, octet_eq (b := b0) (by omega), octet_eq (b := b1) (by omega)] at h
    exact h
  | one b0 =>
    have hb0 := b0.toNat_lt
    set n := b0.toNat * 16 with hn
    have hbits : bits [n / 64, n % 64] = n := by
      simp only [bits, List.foldl_cons, List.foldl_nil]
      omega
    have h := Text.one (value_letter (n / 64) (by omega)) (value_letter (n % 64) (by omega))
      (by rw [hbits]; omega)
    rw [hbits, octet_eq (b := b0) (by omega)] at h
    exact h
  | nil => exact .nil

/-- Four characters for every three octets that were begun. -/
theorem length_encode (s : List UInt8) : (encode s).length = 4 * (s.length ⌈/⌉ 3) := by
  induction s using octets_induction with
  | quantum b0 b1 b2 rest ih =>
    have hlen : (b0 :: b1 :: b2 :: rest).length = 3 + rest.length := by
      simp only [List.length_cons]
      omega
    rw [hlen, ceilDiv_add_self (by omega)]
    simp only [encode, List.length_cons, ih]
    omega
  | two => simp [encode, ceilDiv_of_le]
  | one => simp [encode, ceilDiv_of_le]
  | nil => simp [encode]

/-- **The characters of a text**: letters, and at most two pads behind them. -/
theorem encode_chars (s : List UInt8) :
    ∃ body k, encode s = body ++ List.replicate k pad ∧ k ≤ 2 ∧ ∀ c ∈ body, c ∈ alphabet := by
  induction s using octets_induction with
  | quantum b0 b1 b2 rest ih =>
    have hb0 := b0.toNat_lt
    have hb1 := b1.toNat_lt
    have hb2 := b2.toNat_lt
    set n := (b0.toNat * 256 + b1.toNat) * 256 + b2.toNat with hn
    obtain ⟨body, k, heq, hk, hbody⟩ := ih
    refine ⟨letter (n / 262144) :: letter (n / 4096 % 64) :: letter (n / 64 % 64) :: letter (n % 64) :: body, k,
      ?_, hk, ?_⟩
    · rw [encode, heq]
      rfl
    · intro c hc
      simp only [List.mem_cons] at hc
      rcases hc with rfl | rfl | rfl | rfl | hc
      · exact letter_mem _ (by omega)
      · exact letter_mem _ (by omega)
      · exact letter_mem _ (by omega)
      · exact letter_mem _ (by omega)
      · exact hbody c hc
  | two b0 b1 =>
    have hb0 := b0.toNat_lt
    have hb1 := b1.toNat_lt
    set n := (b0.toNat * 256 + b1.toNat) * 4 with hn
    refine ⟨[letter (n / 4096), letter (n / 64 % 64), letter (n % 64)], 1, rfl, by omega, ?_⟩
    intro c hc
    simp only [List.mem_cons, List.not_mem_nil, or_false] at hc
    rcases hc with rfl | rfl | rfl
    · exact letter_mem _ (by omega)
    · exact letter_mem _ (by omega)
    · exact letter_mem _ (by omega)
  | one b0 =>
    have hb0 := b0.toNat_lt
    set n := b0.toNat * 16 with hn
    refine ⟨[letter (n / 64), letter (n % 64)], 2, rfl, le_refl _, ?_⟩
    intro c hc
    simp only [List.mem_cons, List.not_mem_nil, or_false] at hc
    rcases hc with rfl | rfl
    · exact letter_mem _ (by omega)
    · exact letter_mem _ (by omega)
  | nil => exact ⟨[], 0, rfl, by omega, by simp⟩

end Rfc1521
