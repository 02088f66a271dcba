import Mathlib.Data.List.Basic
import Mathlib.Data.List.TakeWhile
import Mathlib.Tactic

/-!
# Memory cells, byte order, C integers, C strings

The bytes below the program: cells that `malloc` leaves unwritten, the two byte
orders of a 16-bit header (the builds are for little-endian hosts), `int`s, and strings
ended by a NUL.
-/

namespace Qsf

/-- A byte of memory; `none` before anything was stored in it. -/
abbrev Cell := Option UInt8

/-- `malloc(n)`: `n` cells with unspecified contents. -/
def qsfMalloc (n : ℕ) : List Cell := List.replicate n none

/-- Store `bs` at offset `off`. -/
def storeAt (buf : List Cell) (off : ℕ) (bs : List UInt8) : List Cell :=
  buf.take off ++ bs.map some ++ buf.drop (off + bs.length)

theorem storeAt_nil (buf : List Cell) (off : ℕ) : storeAt buf off [] = buf := by
  unfold storeAt
  rw [List.map_nil, List.append_nil, List.length_nil, Nat.add_zero, List.take_append_drop]

/-- Two stores, the second right behind the first. -/
theorem storeAt_append {buf : List Cell} {off : ℕ} (h : off ≤ buf.length) (xs ys : List UInt8) :
    storeAt (storeAt buf off xs) (off + xs.length) ys = storeAt buf off (xs ++ ys) := by
  have hpre : (buf.take off ++ xs.map some).length = off + xs.length := by
    rw [List.length_append, List.length_take, List.length_map, Nat.min_eq_left h]
  have htake : (storeAt buf off xs).take (off + xs.length) = buf.take off ++ xs.map some := by
    unfold storeAt
    rw [← hpre, List.take_left]
  have hdrop : (storeAt buf off xs).drop (off + xs.length + ys.length) =
      buf.drop (off + (xs ++ ys).length) := by
    have hlen : (xs ++ ys).length = xs.length + ys.length := List.length_append
    unfold storeAt
    rw [← hpre, List.drop_length_add_append, List.drop_drop]
    congr 1
    omega
  rw [storeAt, htake, hdrop, storeAt, List.map_append]
  simp only [List.append_assoc]

theorem le_length_storeAt {buf : List Cell} {off : ℕ} (h : off ≤ buf.length) (xs : List UInt8) :
    off + xs.length ≤ (storeAt buf off xs).length := by
  unfold storeAt
  rw [List.length_append, List.length_append, List.length_take, List.length_map, Nat.min_eq_left h]
  omega

/-- What is stored at the start is read back from there. -/
theorem take_storeAt_zero (buf : List Cell) (xs : List UInt8) :
    (storeAt buf 0 xs).take xs.length = xs.map some := by
  unfold storeAt
  rw [List.take_zero, List.nil_append, List.take_append_of_le_length (by rw [List.length_map])]
  exact List.take_of_length_le (by rw [List.length_map])

theorem length_storeAt {buf : List Cell} {off : ℕ} {bs : List UInt8}
    (h : off + bs.length ≤ buf.length) : (storeAt buf off bs).length = buf.length := by
  simp only [storeAt, List.length_append, List.length_take, List.length_map, List.length_drop]
  omega

/-- Bytes stored behind a prefix extend it. -/
theorem take_storeAt {buf : List Cell} {t bs : List UInt8} (ht : buf.take t.length = t.map some)
    (h : t.length + bs.length ≤ buf.length) :
    (storeAt buf t.length bs).take (t ++ bs).length = (t ++ bs).map some := by
  have hl : (buf.take t.length ++ bs.map some).length = (t ++ bs).length := by
    simp only [List.length_append, List.length_take, List.length_map]
    omega
  rw [storeAt, ← hl, List.take_left, ht, List.map_append]

/-- The 16-bit value whose two bytes in memory are `b0 b1`. -/
def loadU16 (b0 b1 : UInt8) : UInt16 := UInt16.ofNat (b0.toNat + 256 * b1.toNat)

/-- The two bytes of a 16-bit value in memory. -/
def storeU16 (n : UInt16) : List UInt8 := [UInt8.ofNat n.toNat, UInt8.ofNat (n.toNat / 256)]

/-- Host order to network order: swap the two bytes. -/
def htons (n : UInt16) : UInt16 := UInt16.ofNat (n.toNat % 256 * 256 + n.toNat / 256)

/-- Network order to host order: the same swap. -/
def ntohs (n : UInt16) : UInt16 := htons n

theorem htons_toNat (n : UInt16) : (htons n).toNat = n.toNat % 256 * 256 + n.toNat / 256 := by
  have := n.toNat_lt
  rw [htons, UInt16.toNat_ofNat_of_lt']
  norm_num [UInt16.size]
  omega

/-- In memory the network form is big-endian. -/
theorem storeU16_htons (n : UInt16) :
    storeU16 (htons n) = [UInt8.ofNat (n.toNat / 256), UInt8.ofNat (n.toNat % 256)] := by
  have h := n.toNat_lt
  rw [storeU16, htons_toNat]
  congr 1
  · apply UInt8.toNat_inj.1
    simp only [UInt8.toNat_ofNat']
    omega
  · congr 2
    omega

/-- A header read back through `ntohs` is the big-endian value of its bytes. -/
theorem ntohs_loadU16 (b0 b1 : UInt8) :
    (ntohs (loadU16 b0 b1)).toNat = 256 * b0.toNat + b1.toNat := by
  have h0 := b0.toNat_lt
  have h1 := b1.toNat_lt
  have hl : (loadU16 b0 b1).toNat = b0.toNat + 256 * b1.toNat := by
    rw [loadU16, UInt16.toNat_ofNat_of_lt']
    norm_num [UInt16.size]
    omega
  rw [ntohs, htons_toNat, hl]
  omega

/-- The `k` low bytes of a number, the lowest first. -/
def leBytes : ℕ → ℕ → List UInt8
  | 0, _ => []
  | k + 1, n => UInt8.ofNat n :: leBytes k (n / 256)

/-- The number whose bytes are these, the lowest first. -/
def leNat : List UInt8 → ℕ
  | [] => 0
  | b :: bs => b.toNat + 256 * leNat bs

@[simp] theorem length_leBytes (k n : ℕ) : (leBytes k n).length = k := by
  induction k generalizing n with
  | zero => rfl
  | succ k ih => rw [leBytes, List.length_cons, ih]

theorem leNat_leBytes (k n : ℕ) : leNat (leBytes k n) = n % 256 ^ k := by
  induction k generalizing n with
  | zero => rw [leBytes, leNat, pow_zero, Nat.mod_one]
  | succ k ih =>
    have hpow : 256 ^ (k + 1) = 256 * 256 ^ k := pow_succ' ..
    rw [leBytes, leNat, ih, hpow, Nat.mod_mul]
    rfl

/-! ## C integers -/

/-- The value of an `int` after an operation with result `x`. -/
def int32 (x : ℤ) : ℤ := x.bmod 4294967296

theorem int32_of_range {x : ℤ} (hlo : -2147483648 ≤ x) (hhi : x < 2147483648) : int32 x = x := by
  unfold int32
  exact Int.bmod_eq_of_le_mul_two (by omega) (by omega)

/-- An `int` holds what is in its range, and nothing else. -/
theorem int32_eq_iff {x : ℤ} : int32 x = x ↔ -2147483648 ≤ x ∧ x < 2147483648 := by
  refine ⟨fun h => ?_, fun h => int32_of_range h.1 h.2⟩
  have hlo : -((4294967296 : ℕ) : ℤ) / 2 ≤ int32 x := Int.le_bmod (by decide)
  have hhi : int32 x < ((4294967296 : ℕ) + 1) / 2 := Int.bmod_lt (by decide)
  rw [h] at hlo hhi
  omega

/-- An `int` in memory. -/
def storeInt (x : ℤ) : List UInt8 := leBytes 4 (x % 4294967296).toNat

/-- The `int` in four bytes of memory. -/
def loadInt (bs : List UInt8) : ℤ := int32 (leNat bs)

@[simp] theorem length_storeInt (x : ℤ) : (storeInt x).length = 4 := length_leBytes ..

theorem loadInt_storeInt (x : ℤ) : loadInt (storeInt x) = int32 x := by
  have hmod : ((x % 4294967296).toNat : ℤ) = x % 4294967296 :=
    Int.toNat_of_nonneg (Int.emod_nonneg x (by decide))
  have hlt : (x % 4294967296).toNat < 256 ^ 4 := by omega
  unfold loadInt storeInt int32
  rw [leNat_leBytes, Nat.mod_eq_of_lt hlt, hmod]
  exact Int.emod_bmod ..

/-! ## C strings -/

/-- `isspace` in the C locale. -/
def isspace (b : UInt8) : Bool := b = 32 || (9 ≤ b && b ≤ 13)

/-- The bytes of a C string, without the NUL that ends it. -/
structure CString where
  bytes : List UInt8
  noNul : 0 ∉ bytes
  deriving DecidableEq

/-- `strlen`. -/
def CString.length (s : CString) : ℕ := s.bytes.length

/-- The string in memory, with its NUL. -/
def CString.stored (s : CString) : List UInt8 := s.bytes ++ [0]

/-- `"sys"`. -/
def CString.sys : CString := ⟨[115, 121, 115], by decide⟩

/-- `strncpy(dst, src, n)`: `n` bytes, filled up with NULs, and without one when `src` is
too long. -/
def strncpy (src : CString) (n : ℕ) : List UInt8 := (src.bytes ++ List.replicate n 0).take n

/-- The string that starts at some memory. -/
def cstr (mem : List UInt8) : List UInt8 := mem.takeWhile (· ≠ 0)

/-- The C string at some offset; `none` stands for reading past the end. -/
def readCString (mem : List UInt8) (off : ℕ) : Option (List UInt8) :=
  if 0 ∈ mem.drop off then some (cstr (mem.drop off)) else none

/-- `strcmp(a, b) == 0`; `none` when there is no NUL to stop at. -/
def strcmpEq (a b : List UInt8) : Option Bool :=
  if 0 ∈ a ∧ 0 ∈ b then some (cstr a = cstr b) else none

@[simp] theorem length_strncpy (src : CString) (n : ℕ) : (strncpy src n).length = n := by
  unfold strncpy
  rw [List.length_take, List.length_append, List.length_replicate]
  omega

/-- A string that is too long is cut off, and not ended by a NUL. -/
theorem strncpy_long {s : CString} {n : ℕ} (h : n ≤ s.length) : strncpy s n = s.bytes.take n :=
  List.take_append_of_le_length h

/-- A string that goes on behind some memory without a NUL. -/
theorem cstr_append_of_notMem {bs rest : List UInt8} (h : 0 ∉ bs) :
    cstr (bs ++ rest) = bs ++ cstr rest := by
  unfold cstr
  apply List.takeWhile_append_of_pos
  intro b hb
  simp only [ne_eq, decide_eq_true_eq]
  rintro rfl
  exact h hb

theorem zero_notMem_cstr (mem : List UInt8) : 0 ∉ cstr mem := by
  intro h
  have hne := List.mem_takeWhile_imp h
  simp at hne

theorem cstr_eq_self {bs : List UInt8} (h : 0 ∉ bs) : cstr bs = bs := by
  have happ := @cstr_append_of_notMem bs [] h
  rw [List.append_nil] at happ
  exact happ.trans (List.append_nil bs)

/-- What comes behind a NUL does not matter. -/
theorem cstr_append_of_mem {bs rest : List UInt8} (h : 0 ∈ bs) : cstr (bs ++ rest) = cstr bs := by
  obtain ⟨as, cs, rfl, has⟩ := List.eq_append_cons_of_mem h
  rw [List.append_assoc, List.cons_append, cstr_append_of_notMem has, cstr_append_of_notMem has]
  simp [cstr]

theorem cstr_append {bs rest : List UInt8} (h : 0 ∉ bs) : cstr (bs ++ 0 :: rest) = bs := by
  rw [cstr_append_of_notMem h]
  simp [cstr]

theorem cstr_stored (s : CString) : cstr s.stored = s.bytes := cstr_append s.noNul

/-- A string that is short enough is copied with its NUL. -/
theorem strncpy_short {s : CString} {n : ℕ} (h : s.length < n) :
    0 ∈ strncpy s n ∧ cstr (strncpy s n) = s.bytes := by
  have hlen : s.bytes.length < n := h
  obtain ⟨k, hk⟩ : ∃ k, n = s.bytes.length + (k + 1) := ⟨n - s.bytes.length - 1, by omega⟩
  have hcopy : strncpy s n = s.bytes ++ 0 :: List.replicate k 0 := by
    unfold strncpy
    rw [hk, List.take_length_add_append, List.take_replicate, ← List.replicate_succ]
    congr 2
    omega
  rw [hcopy]
  exact ⟨by simp, cstr_append s.noNul⟩

end Qsf
