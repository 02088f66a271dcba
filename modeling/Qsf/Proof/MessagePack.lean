import Qsf.Lib.Reader
import Qsf.Spec.MessagePack

/-!
# MessagePack: what is packed is unpacked
-/

set_option autoImplicit false

namespace Qsf

/-! ## Integers in bytes -/

@[simp] theorem length_packU (k n : ℕ) : (packU k n).length = k := by
  rw [packU, List.length_reverse, length_leBytes]

@[simp] theorem length_packI (k : ℕ) (n : ℤ) : (packI k n).length = k := length_packU _ _

theorem unpackU_packU {k n : ℕ} (h : n < 256 ^ k) : unpackU (packU k n) = n := by
  rw [unpackU, packU, List.reverse_reverse, leNat_leBytes, Nat.mod_eq_of_lt h]

theorem unpackI_packI {k : ℕ} {n : ℤ} (hlo : -(256 ^ k : ℕ) ≤ 2 * n) (hhi : 2 * n < (256 ^ k : ℕ)) :
    unpackI (packI k n) = n := by
  have hpos : (0 : ℤ) < (256 ^ k : ℕ) := by
    exact_mod_cast Nat.pow_pos (n := k) (by norm_num : 0 < 256)
  have hmod := Int.emod_nonneg n hpos.ne'
  have hlt := Int.emod_lt_of_pos n hpos
  rw [unpackI, length_packI, packI, unpackU_packU (by omega), Int.toNat_of_nonneg hmod, Int.emod_bmod]
  exact Int.bmod_eq_of_le_mul_two (by omega) (by omega)

/-! ## Reading one value -/

open Program

variable {widen : UInt32 → UInt64} {narrow : UInt64 → UInt32} {o : MpOptions}
  {m n : ℕ} {b : UInt8} {bs q : List UInt8} {v : MpValue}

/-- The first byte decides. -/
theorem read_any_cons (b : UInt8) (bs : List UInt8) : (unpackAny widen (m + 1)).read (b :: bs) =
    (unpackers widen (unpackAny widen m) b (typesMap b)).read bs := by
  rw [unpackAny]
  exact read_call_append (show [b].length = 1 from rfl)

theorem read_uint {k : ℕ} (h : n < 256 ^ k) :
    (unpackUint k).read (packU k n ++ q) = some (.ok (.integer (Int64.ofNat n)), q) := by
  rw [unpackUint, read_call_append (length_packU k n), unpackU_packU h, read_done]

theorem read_int {k : ℕ} {n : ℤ} (hlo : -(256 ^ k : ℕ) ≤ 2 * n) (hhi : 2 * n < (256 ^ k : ℕ)) :
    (unpackInt k).read (packI k n ++ q) = some (.ok (.integer (Int64.ofInt n)), q) := by
  rw [unpackInt, read_call_append (length_packI k n), unpackI_packI hlo hhi, read_done]

theorem read_str {k : ℕ} (h : bs.length < 256 ^ k) :
    (unpackStr k).read (packU k bs.length ++ bs ++ q) = some (.ok (.string bs), q) := by
  rw [unpackStr, List.append_assoc, read_call_append (length_packU k _), unpackU_packU h, read_call_append rfl,
    read_done]

theorem fixnum_pos_type : ∀ n < 128, typesMap (UInt8.ofNat n) = .fixnum_pos ∧ (UInt8.ofNat n).toNat = n := by
  decide

theorem fixnum_neg_type : ∀ n < 32, typesMap (UInt8.ofNat (0xE0 + n)) = .fixnum_neg ∧
    (UInt8.ofNat (0xE0 + n)).toNat = 0xE0 + n := by
  decide

theorem fixmap_type : ∀ n < 16, typesMap (UInt8.ofNat (0x80 + n)) = .fixmap ∧
    (UInt8.ofNat (0x80 + n) &&& 0xF).toNat = n := by
  decide

theorem fixarray_type : ∀ n < 16, typesMap (UInt8.ofNat (0x90 + n)) = .fixarray ∧
    (UInt8.ofNat (0x90 + n) &&& 0xF).toNat = n := by
  decide

theorem fixstr_type : ∀ n < 32, typesMap (UInt8.ofNat (0xA0 + n)) = .fixstr ∧
    (UInt8.ofNat (0xA0 + n) &&& 0x1F).toNat = n := by
  decide

theorem read_fixnum_pos {n : ℤ} (hlo : 0 ≤ n) (hhi : n ≤ 0x7F) :
    (unpackAny widen (m + 1)).read (UInt8.ofNat n.toNat :: q) = some (.ok (.integer (Int64.ofInt n)), q) := by
  obtain ⟨ht, hv⟩ := fixnum_pos_type n.toNat (by omega)
  rw [read_any_cons, ht, unpackers, read_done, hv, ← Int64.ofInt_eq_ofNat, Int.toNat_of_nonneg hlo]

theorem read_fixnum_neg {n : ℤ} (hlo : -0x20 ≤ n) (hhi : n < 0) :
    (unpackAny widen (m + 1)).read (UInt8.ofNat (0x100 + n).toNat :: q) =
      some (.ok (.integer (Int64.ofInt n)), q) := by
  obtain ⟨ht, hv⟩ := fixnum_neg_type (n + 0x20).toNat (by omega)
  have hn : (0x100 + n).toNat = 0xE0 + (n + 0x20).toNat := by omega
  have hval : ((0xE0 + (n + 0x20).toNat : ℕ) : ℤ) - 0x100 = n := by omega
  rw [hn, read_any_cons, ht, unpackers, read_done, hv, hval]

variable (widen) in
/-- **Integers**, packed as unsigned where they are not negative. -/
theorem read_packUnsigned {n : ℤ} (hlo : -2 ^ 63 ≤ n) (hhi : n < 2 ^ 63) :
    (unpackAny widen (m + 1)).read (packUnsigned n ++ q) = some (.ok (.integer (Int64.ofInt n)), q) := by
  have huint : ∀ k, 0 ≤ n → n < (256 ^ k : ℕ) →
      (unpackUint k).read (packU k n.toNat ++ q) = some (.ok (.integer (Int64.ofInt n)), q) := by
    intro k hn hk
    rw [read_uint (by omega), ← Int64.ofInt_eq_ofNat, Int.toNat_of_nonneg hn]
  unfold packUnsigned
  split_ifs with hneg h1 h2 h3 h4 h5 h6 h7 h8
  · exact read_fixnum_pos hneg h1
  · exact (read_any_cons 0xCC _).trans (huint 1 hneg (by omega))
  · exact (read_any_cons 0xCD _).trans (huint 2 hneg (by omega))
  · exact (read_any_cons 0xCE _).trans (huint 4 hneg (by omega))
  · exact (read_any_cons 0xCF _).trans (huint 8 hneg (by omega))
  · exact read_fixnum_neg h5 (by omega)
  · exact (read_any_cons 0xD0 _).trans (read_int (by omega) (by omega))
  · exact (read_any_cons 0xD1 _).trans (read_int (by omega) (by omega))
  · exact (read_any_cons 0xD2 _).trans (read_int (by omega) (by omega))
  · exact (read_any_cons 0xD3 _).trans (read_int (by omega) (by omega))

variable (widen) in
/-- **Integers**, packed as signed. -/
theorem read_packSigned {n : ℤ} (hlo : -2 ^ 63 ≤ n) (hhi : n < 2 ^ 63) :
    (unpackAny widen (m + 1)).read (packSigned n ++ q) = some (.ok (.integer (Int64.ofInt n)), q) := by
  unfold packSigned
  split_ifs with hneg h1 h2 h3 h4 h5 h6 h7
  · exact read_fixnum_pos hneg h1
  · exact (read_any_cons 0xD1 _).trans (read_int (by omega) (by omega))
  · exact (read_any_cons 0xD2 _).trans (read_int (by omega) (by omega))
  · exact (read_any_cons 0xD3 _).trans (read_int (by omega) (by omega))
  · exact read_fixnum_neg h4 (by omega)
  · exact (read_any_cons 0xD0 _).trans (read_int (by omega) (by omega))
  · exact (read_any_cons 0xD1 _).trans (read_int (by omega) (by omega))
  · exact (read_any_cons 0xD2 _).trans (read_int (by omega) (by omega))
  · exact (read_any_cons 0xD3 _).trans (read_int (by omega) (by omega))

/-- **Strings**, under each option. -/
theorem read_packString {out : List UInt8} (h : o.string.pack bs = .ok out) (q : List UInt8) :
    (unpackAny widen (m + 1)).read (out ++ q) = some (.ok (.string bs), q) := by
  have hfix : bs.length ≤ 0x1F →
      (unpackAny widen (m + 1)).read (UInt8.ofNat (0xA0 + bs.length) :: bs ++ q) = some (.ok (.string bs), q) := by
    intro hn
    obtain ⟨ht, hv⟩ := fixstr_type bs.length (by omega)
    rw [List.cons_append, read_any_cons, ht, unpackers, hv, read_call_append rfl, read_done]
  have hstr : ∀ k, bs.length < 256 ^ k →
      (unpackStr k).read (packU k bs.length ++ bs ++ q) = some (.ok (.string bs), q) := fun k hk => read_str hk
  cases ho : o.string with
  | string_compat =>
    rw [ho, StringOption.pack, packStringCompat] at h
    split_ifs at h with h1 h2 h3
    all_goals obtain rfl := Except.ok.inj h
    · exact hfix h1
    · exact (read_any_cons 0xDA _).trans (hstr 2 (by omega))
    · exact (read_any_cons 0xDB _).trans (hstr 4 (by omega))
  | string =>
    rw [ho, StringOption.pack, packString] at h
    split_ifs at h with h1 h2 h3 h4
    all_goals obtain rfl := Except.ok.inj h
    · exact hfix h1
    · exact (read_any_cons 0xD9 _).trans (hstr 1 (by omega))
    · exact (read_any_cons 0xDA _).trans (hstr 2 (by omega))
    · exact (read_any_cons 0xDB _).trans (hstr 4 (by omega))
  | binary =>
    rw [ho, StringOption.pack, packBinary] at h
    split_ifs at h with h1 h2 h3
    all_goals obtain rfl := Except.ok.inj h
    · exact (read_any_cons 0xC4 _).trans (hstr 1 (by omega))
    · exact (read_any_cons 0xC5 _).trans (hstr 2 (by omega))
    · exact (read_any_cons 0xC6 _).trans (hstr 4 (by omega))

/-! ## Values of Lua -/

namespace MpValue

/-- What may be the key of an entry: `t[k] = v` takes it, and stores it as it is. -/
def Key : MpValue → Prop
  | .nil => False
  | .float bits => (MpValue.float bits).number ≠ none ∧ floatKey bits = .float bits
  | _ => True

mutual

/-- What Lua sees to: keys are keys, no two entries have the same one, and no entry is nil. -/
def Wf : MpValue → Prop
  | .table es => es.Pairwise (fun p q => p.1.rawequal q.1 = false) ∧ WfEntries es
  | _ => True

def WfEntries : List (MpValue × MpValue) → Prop
  | [] => True
  | (k, v) :: es => k.Key ∧ v ≠ .nil ∧ k.Wf ∧ v.Wf ∧ WfEntries es

end

/-- The index that `max` reaches. -/
def maxIndex : WithBot (WithTop ℚ) → ℕ
  | some (some q) => ⌊q⌋.toNat
  | _ => 2 ^ 63

/-- The length of the array that the packers see in a table with these keys, if they see one. -/
def arrayLength (o : ArrayOption) (keys : List MpValue) : Option ℕ :=
  match o with
  | .without_hole => if isArray keys then some keys.length else none
  | .with_hole => if (scanKeys keys).isMap then none else some (maxIndex (scanKeys keys).max)
  | .always_as_map => none

/-- The entry of `tbl[i]`, if that is not nil. -/
def slot (tbl : ℕ → MpValue) (i : ℕ) : Option (MpValue × MpValue) :=
  match tbl i with
  | .nil => none
  | v => some (.integer (Int64.ofNat i), v)

/-- The entries of a table from 1 to `n`, in order. -/
def slots (es : List (MpValue × MpValue)) (n : ℕ) : List (MpValue × MpValue) :=
  (List.range' 1 n).filterMap (slot fun i => rawget es (.integer (Int64.ofNat i)))

/-- What a key is stored as. -/
def tableKey : MpValue → MpValue
  | .float bits => floatKey bits
  | k => k

/-- The table after these entries were stored. -/
def storeAll (t es : List (MpValue × MpValue)) : List (MpValue × MpValue) :=
  es.foldl (fun t p => rawset t (tableKey p.1) p.2) t

/-- What is unpacked from a packed float. -/
def canonFloat (widen : UInt32 → UInt64) (narrow : UInt64 → UInt32) (o : NumberOption) (bits : UInt64) : MpValue :=
  match o with
  | .integer => floatKey bits
  | .float => .float (widen (narrow bits))
  | .double => .float bits

mutual

/-- **What is unpacked from a packed value.** An array has the entries of its indices only; the entries
of a map are stored one after the other, as their keys come back. -/
def canon (widen : UInt32 → UInt64) (narrow : UInt64 → UInt32) (o : MpOptions) : MpValue → MpValue
  | .table es =>
    match arrayLength o.array (es.map Prod.fst) with
    | some n => .table (slots (canonItems widen narrow o es) n)
    | none => .table (storeAll [] (canonEntries widen narrow o es))
  | .float bits => canonFloat widen narrow o.number bits
  | v => v

def canonItems (widen : UInt32 → UInt64) (narrow : UInt64 → UInt32) (o : MpOptions) :
    List (MpValue × MpValue) → List (MpValue × MpValue)
  | [] => []
  | (k, v) :: es => (k, v.canon widen narrow o) :: canonItems widen narrow o es

def canonEntries (widen : UInt32 → UInt64) (narrow : UInt64 → UInt32) (o : MpOptions) :
    List (MpValue × MpValue) → List (MpValue × MpValue)
  | [] => []
  | (k, v) :: es => (k.canon widen narrow o, v.canon widen narrow o) :: canonEntries widen narrow o es

end

theorem packEntries_eq (narrow : UInt64 → UInt32) (o : MpOptions) (es : List (MpValue × MpValue)) :
    packEntries narrow o es = es.map fun p => ⟨p.1, p.1.pack narrow o, p.2.pack narrow o⟩ := by
  induction es with
  | nil => rfl
  | cons p es ih => rw [packEntries, ih, List.map_cons]

theorem canonItems_eq (es : List (MpValue × MpValue)) :
    canonItems widen narrow o es = es.map fun p => (p.1, p.2.canon widen narrow o) := by
  induction es with
  | nil => rfl
  | cons p es ih => rw [canonItems, ih, List.map_cons]

theorem canonEntries_eq (es : List (MpValue × MpValue)) :
    canonEntries widen narrow o es = es.map fun p => (p.1.canon widen narrow o, p.2.canon widen narrow o) := by
  induction es with
  | nil => rfl
  | cons p es ih => rw [canonEntries, ih, List.map_cons]

theorem wfEntries_iff {es : List (MpValue × MpValue)} :
    WfEntries es ↔ ∀ p ∈ es, p.1.Key ∧ p.2 ≠ .nil ∧ p.1.Wf ∧ p.2.Wf := by
  induction es with
  | nil => exact ⟨fun _ p hp => absurd hp List.not_mem_nil, fun _ => trivial⟩
  | cons p es ih =>
    rw [List.forall_mem_cons, WfEntries, ih]
    tauto

/-- Induction over values, with the sides of all entries of a table. -/
theorem entries_induction {P : MpValue → Prop} (nil : P .nil) (boolean : ∀ b, P (.boolean b))
    (integer : ∀ n, P (.integer n)) (float : ∀ bits, P (.float bits)) (string : ∀ s, P (.string s))
    (table : ∀ es, (∀ p ∈ es, P p.1 ∧ P p.2) → P (.table es)) (other : ∀ type, P (.other type))
    (v : MpValue) : P v :=
  MpValue.rec (motive_1 := P) (motive_2 := fun es => ∀ p ∈ es, P p.1 ∧ P p.2) (motive_3 := fun p => P p.1 ∧ P p.2)
    nil boolean integer float string table other (fun _ h => absurd h List.not_mem_nil)
    (fun _ _ hp hes => List.forall_mem_cons.2 ⟨hp, hes⟩) (fun _ _ hk hv => ⟨hk, hv⟩) v

theorem floatKey_eq (bits : UInt64) : (∃ n, floatKey bits = .integer n) ∨ floatKey bits = .float bits := by
  unfold floatKey
  split
  · split
    · exact .inl ⟨_, rfl⟩
    · exact .inr rfl
  · exact .inr rfl

variable (widen narrow o) in
theorem canonFloat_eq (bits : UInt64) : (∃ n, canonFloat widen narrow o.number bits = .integer n) ∨
    ∃ bits', canonFloat widen narrow o.number bits = .float bits' := by
  unfold canonFloat
  cases o.number with
  | integer => exact (floatKey_eq bits).imp id fun h => ⟨bits, h⟩
  | float | double => exact .inr ⟨_, rfl⟩

variable (widen narrow o) in
theorem canon_table (es : List (MpValue × MpValue)) : ∃ fs, (MpValue.table es).canon widen narrow o = .table fs := by
  rw [canon]
  split <;> exact ⟨_, rfl⟩

theorem canon_ne_nil (hv : v ≠ .nil) : v.canon widen narrow o ≠ .nil := by
  cases v with
  | nil => exact absurd rfl hv
  | float bits =>
    rw [canon]
    obtain ⟨n, h⟩ | ⟨bits', h⟩ := canonFloat_eq widen narrow o bits <;>
      exact fun e => MpValue.noConfusion (h ▸ e)
  | table es =>
    obtain ⟨fs, h⟩ := canon_table widen narrow o es
    exact fun e => MpValue.noConfusion (h ▸ e)
  | boolean | integer | string | other => exact fun e => MpValue.noConfusion e

end MpValue

/-- **What C promises** of a float that it makes a `float` and a `double` again: a number stays one,
and after that it does not change any more. -/
structure FloatCast (widen : UInt32 → UInt64) (narrow : UInt64 → UInt32) : Prop where
  number : ∀ bits, (MpValue.float bits).number ≠ none → (MpValue.float (widen (narrow bits))).number ≠ none
  again : ∀ bits, (MpValue.float bits).number ≠ none → widen (narrow (widen (narrow bits))) = widen (narrow bits)

/-! ## Tables -/

theorem concatBytes_cons {r : Except MpError (List UInt8)} {rs : List (Except MpError (List UInt8))}
    {out : List UInt8} (h : concatBytes (r :: rs) = .ok out) :
    ∃ b bs, r = .ok b ∧ concatBytes rs = .ok bs ∧ out = b ++ bs := by
  rw [concatBytes] at h
  cases r with
  | error e => cases h
  | ok b =>
    cases hrs : concatBytes rs with
    | error e => rw [hrs] at h; cases h
    | ok bs =>
      rw [hrs] at h
      exact ⟨b, bs, rfl, rfl, (Except.ok.inj h).symm⟩

theorem map_ok {f : List UInt8 → List UInt8} {r : Except MpError (List UInt8)} {out : List UInt8}
    (h : r.map f = .ok out) : ∃ bs, r = .ok bs ∧ out = f bs := by
  cases r with
  | error e => cases h
  | ok bs => exact ⟨bs, rfl, (Except.ok.inj h).symm⟩

variable (widen) in
/-- The header of an array, and the bytes of the items behind it. -/
theorem packArray_header {tbl : List PackedEntry} {out : List UInt8} (h : packArray tbl n = .ok out) :
    ∃ head items, out = head ++ items ∧ head ≠ [] ∧ n ≤ 0xFFFFFFFF ∧
      concatBytes ((List.range' 1 n).map (packItem tbl)) = .ok items ∧
      ∀ q, (unpackAny widen (m + 1)).read (head ++ q) = (unpackArray (unpackAny widen m) n 1 []).read q := by
  unfold packArray at h
  dsimp only at h
  split_ifs at h with h1 h2 h3
  · obtain ⟨items, hitems, rfl⟩ := map_ok h
    obtain ⟨ht, hv⟩ := fixarray_type n (by omega)
    refine ⟨[UInt8.ofNat (0x90 + n)], items, rfl, List.cons_ne_nil _ _, by omega, hitems, ?_⟩
    intro q
    rw [List.singleton_append, read_any_cons, ht, unpackers, hv]
  · obtain ⟨items, hitems, rfl⟩ := map_ok h
    refine ⟨0xDC :: packU 2 n, items, rfl, List.cons_ne_nil _ _, by omega, hitems, ?_⟩
    intro q
    rw [List.cons_append, read_any_cons]
    show (call 2 _).read _ = _
    rw [read_call_append (length_packU 2 n), unpackU_packU (by omega)]
  · obtain ⟨items, hitems, rfl⟩ := map_ok h
    refine ⟨0xDD :: packU 4 n, items, rfl, List.cons_ne_nil _ _, by omega, hitems, ?_⟩
    intro q
    rw [List.cons_append, read_any_cons]
    show (call 4 _).read _ = _
    rw [read_call_append (length_packU 4 n), unpackU_packU (by omega)]

variable (widen) in
/-- The header of a map. -/
theorem packMap_header {tbl : List PackedEntry} {out : List UInt8} (h : packMap tbl n = .ok out) :
    ∃ head entries, out = head ++ entries ∧ head ≠ [] ∧
      concatBytes (tbl.flatMap fun e => [e.keyBytes, e.valueBytes]) = .ok entries ∧
      ∀ q, (unpackAny widen (m + 1)).read (head ++ q) = (unpackMap (unpackAny widen m) n []).read q := by
  unfold packMap at h
  dsimp only at h
  split_ifs at h with h1 h2 h3
  · obtain ⟨entries, hentries, rfl⟩ := map_ok h
    obtain ⟨ht, hv⟩ := fixmap_type n (by omega)
    refine ⟨[UInt8.ofNat (0x80 + n)], entries, rfl, List.cons_ne_nil _ _, hentries, ?_⟩
    intro q
    rw [List.singleton_append, read_any_cons, ht, unpackers, hv]
  · obtain ⟨entries, hentries, rfl⟩ := map_ok h
    refine ⟨0xDE :: packU 2 n, entries, rfl, List.cons_ne_nil _ _, hentries, ?_⟩
    intro q
    rw [List.cons_append, read_any_cons]
    show (call 2 _).read _ = _
    rw [read_call_append (length_packU 2 n), unpackU_packU (by omega)]
  · obtain ⟨entries, hentries, rfl⟩ := map_ok h
    refine ⟨0xDF :: packU 4 n, entries, rfl, List.cons_ne_nil _ _, hentries, ?_⟩
    intro q
    rw [List.cons_append, read_any_cons]
    show (call 4 _).read _ = _
    rw [read_call_append (length_packU 4 n), unpackU_packU (by omega)]

/-- The table after the values `vs` were stored from index `i` on. -/
def storeFrom : List (MpValue × MpValue) → ℕ → List MpValue → List (MpValue × MpValue)
  | t, _, [] => t
  | t, i, v :: vs => storeFrom (rawset t (.integer (Int64.ofNat i)) v) (i + 1) vs

/-- `decode` reads `v` from the bytes of `r`, if there are at most `m`. -/
def ReadsAs (decode : Unpacker) (m : ℕ) (r : Except MpError (List UInt8)) (v : MpValue) : Prop :=
  ∀ b, r = .ok b → b.length ≤ m → ∀ q, decode.read (b ++ q) = some (.ok v, q)

/-- **The loop of `unpack_array`.** -/
theorem read_unpackArray {decode : Unpacker} {rs : List (Except MpError (List UInt8))} {vs : List MpValue}
    (h : List.Forall₂ (ReadsAs decode m) rs vs) {items : List UInt8} (hitems : concatBytes rs = .ok items)
    (hlen : items.length ≤ m) (i : ℕ) (t : List (MpValue × MpValue)) (q : List UInt8) :
    (unpackArray decode rs.length i t).read (items ++ q) = some (.ok (.table (storeFrom t i vs)), q) := by
  induction h generalizing items i t with
  | nil =>
    obtain rfl := Except.ok.inj hitems
    rfl
  | cons hr _ ih =>
    obtain ⟨b, bs, rfl, hbs, rfl⟩ := concatBytes_cons hitems
    rw [List.length_append] at hlen
    rw [List.length_cons, unpackArray, read_bind, List.append_assoc, hr b rfl (by omega), Option.bind_some]
    exact ih hbs (by omega) _ _

/-- `t[k] = val` for a key that can be one. -/
theorem setEntry_eq {k : MpValue} (hnil : k ≠ .nil) (hnan : ∀ bits, k = .float bits → k.number ≠ none)
    (t : List (MpValue × MpValue)) (val : MpValue) : setEntry t k val = .ok (rawset t k.tableKey val) := by
  cases k with
  | nil => exact absurd rfl hnil
  | float bits => exact if_neg (hnan bits rfl)
  | _ => rfl

/-- **The loop of `unpack_map`**, for entries that `setEntry` takes. -/
theorem read_unpackMap {decode : Unpacker} {es : List (MpValue × MpValue)}
    (hread : ∀ p ∈ es, ReadsAs decode m (p.1.pack narrow o) (p.1.canon widen narrow o) ∧
      ReadsAs decode m (p.2.pack narrow o) (p.2.canon widen narrow o))
    (hset : ∀ p ∈ es, ∀ t val, setEntry t (p.1.canon widen narrow o) val =
      .ok (rawset t (p.1.canon widen narrow o).tableKey val)) (t : List (MpValue × MpValue))
    {entries : List UInt8}
    (hentries : concatBytes ((MpValue.packEntries narrow o es).flatMap fun e => [e.keyBytes, e.valueBytes]) = .ok entries)
    (hlen : entries.length ≤ m) (q : List UInt8) :
    (unpackMap decode es.length t).read (entries ++ q) =
      some (.ok (.table (MpValue.storeAll t (MpValue.canonEntries widen narrow o es))), q) := by
  -- on the entries still to come; `t` holds those before
  induction es generalizing t entries with
  | nil =>
    obtain rfl := Except.ok.inj hentries
    rfl
  | cons p es ih =>
    obtain ⟨hk, hv⟩ := hread p List.mem_cons_self
    rw [MpValue.packEntries, List.flatMap_cons] at hentries
    obtain ⟨kb, rest, hkb, hrest, rfl⟩ := concatBytes_cons hentries
    obtain ⟨vb, bs, hvb, hbs, rfl⟩ := concatBytes_cons hrest
    rw [List.length_append, List.length_append] at hlen
    rw [List.length_cons, unpackMap, read_bind, List.append_assoc, hk kb hkb (by omega), Option.bind_some]
    dsimp only
    rw [read_bind, List.append_assoc, hv vb hvb (by omega), Option.bind_some]
    dsimp only
    rw [hset p List.mem_cons_self]
    exact ih (fun p' hp' => hread p' (List.mem_cons_of_mem p hp')) (fun p' hp' => hset p' (List.mem_cons_of_mem p hp')) _
      hbs (by omega)

/-! ## What the loops store -/

theorem rawset_new {t : List (MpValue × MpValue)} {k : MpValue} (hv : v ≠ .nil)
    (hk : ∀ p ∈ t, p.1.rawequal k = false) : rawset t k v = t ++ [(k, v)] := by
  have hany : ¬ (t.any fun p => p.1.rawequal k) = true := by
    rw [List.any_eq_true]
    rintro ⟨p, hp, he⟩
    rw [hk p hp] at he
    cases he
  cases v with
  | nil => exact absurd rfl hv
  | _ => exact if_neg hany

theorem rawset_nil {t : List (MpValue × MpValue)} {k : MpValue} (hk : ∀ p ∈ t, p.1.rawequal k = false) :
    rawset t k .nil = t := by
  refine List.filter_eq_self.2 fun p hp => ?_
  rw [hk p hp]
  rfl

theorem integer_rawequal {i j : ℕ} (hi : i < 2 ^ 63) (hj : j < 2 ^ 63) (hne : i ≠ j) :
    (MpValue.integer (Int64.ofNat i)).rawequal (.integer (Int64.ofNat j)) = false := by
  refine decide_eq_false fun he => hne ?_
  have hint := congrArg Int64.toInt he
  rw [Int64.toInt_ofNat_of_lt hi, Int64.toInt_ofNat_of_lt hj] at hint
  exact Int.ofNat_inj.1 hint

/-- Storing values at consecutive new indices. -/
theorem storeFrom_eq (tbl : ℕ → MpValue) {t : List (MpValue × MpValue)} {i : ℕ} (hn : i + n < 2 ^ 63)
    (ht : ∀ p ∈ t, ∀ j, i ≤ j → j < i + n → p.1.rawequal (.integer (Int64.ofNat j)) = false) :
    storeFrom t i ((List.range' i n).map tbl) = t ++ (List.range' i n).filterMap (MpValue.slot tbl) := by
  induction n generalizing t i with
  | zero => exact (List.append_nil t).symm
  | succ n ih =>
    have hhead : ∀ p ∈ t, p.1.rawequal (.integer (Int64.ofNat i)) = false :=
      fun p hp => ht p hp i le_rfl (by omega)
    rw [List.range'_succ, List.map_cons, storeFrom, List.filterMap_cons]
    by_cases hv : tbl i = .nil
    · rw [hv, rawset_nil hhead, MpValue.slot, hv]
      exact ih (by omega) fun p hp j hj hlt => ht p hp j (by omega) (by omega)
    · have hslot : MpValue.slot tbl i = some (.integer (Int64.ofNat i), tbl i) := by
        unfold MpValue.slot
        split
        next he => exact absurd he hv
        next => rfl
      rw [rawset_new hv hhead, hslot, ih (by omega), List.append_assoc]
      · rfl
      · intro p hp j hj hlt
        rcases List.mem_append.1 hp with hp | hp
        · exact ht p hp j (by omega) (by omega)
        · rw [List.mem_singleton.1 hp]
          exact integer_rawequal (by omega) (by omega) (by omega)

/-- A key comes back as one that `setEntry` takes. -/
theorem setEntry_canon (hcast : o.number = .float → FloatCast widen narrow) {k : MpValue} (hkey : k.Key)
    (t : List (MpValue × MpValue)) (val : MpValue) : setEntry t (k.canon widen narrow o) val =
      .ok (rawset t (k.canon widen narrow o).tableKey val) := by
  have hne : k ≠ .nil := by
    rintro rfl
    exact hkey
  refine setEntry_eq (MpValue.canon_ne_nil hne) ?_ t val
  intro bits he
  cases k with
  | float b =>
    rw [MpValue.canon] at he ⊢
    unfold MpValue.canonFloat
    cases ho : o.number with
    | integer => exact hkey.2 ▸ hkey.1
    | float => exact (hcast ho).number b hkey.1
    | double => exact hkey.1
  | table es =>
    obtain ⟨fs, h⟩ := MpValue.canon_table widen narrow o es
    rw [h] at he
    cases he
  | nil => exact absurd rfl hne
  | boolean | integer | string | other => cases he

/-! ## The round trip -/

/-- What is looked up in a packed table is what is looked up in the canonical one. -/
theorem packItem_reads {decode : Unpacker} {es : List (MpValue × MpValue)}
    (hread : ∀ p ∈ es, ReadsAs decode m (p.2.pack narrow o) (p.2.canon widen narrow o))
    (hnil : ∀ q, decode.read (0xC0 :: q) = some (.ok .nil, q)) (i : ℕ) :
    ReadsAs decode m (packItem (MpValue.packEntries narrow o es) i)
      (rawget (MpValue.canonItems widen narrow o es) (.integer (Int64.ofNat i))) := by
  intro b hb hlen q
  rw [packItem, MpValue.packEntries_eq, List.find?_map] at hb
  rw [rawget, MpValue.canonItems_eq, List.find?_map]
  -- both look for the same entry
  have hcomp : ((fun p : MpValue × MpValue => p.1.rawequal (.integer (Int64.ofNat i))) ∘
      fun p : MpValue × MpValue => (p.1, p.2.canon widen narrow o)) =
      ((fun e : PackedEntry => e.key.rawequal (.integer (Int64.ofNat i))) ∘
        fun p : MpValue × MpValue => ⟨p.1, p.1.pack narrow o, p.2.pack narrow o⟩) := rfl
  rw [hcomp]
  cases hfind : es.find? ((fun e : PackedEntry => e.key.rawequal (.integer (Int64.ofNat i))) ∘
      fun p : MpValue × MpValue => ⟨p.1, p.1.pack narrow o, p.2.pack narrow o⟩) with
  | none =>
    rw [hfind] at hb
    obtain rfl := Except.ok.inj hb
    exact hnil q
  | some p =>
    rw [hfind] at hb
    exact hread p (List.mem_of_find?_eq_some hfind) b hb hlen q

/-- `max` is an index, when the array is packed. -/
theorem packArrayTo_ok {tbl : List PackedEntry} {x : WithBot (WithTop ℚ)} {out : List UInt8}
    (h : packArrayTo tbl x = .ok out) : packArray tbl (MpValue.maxIndex x) = .ok out := by
  unfold packArrayTo at h
  split at h
  · rename_i q
    split_ifs at h with hden
    have hfloor : ⌊q⌋.toNat = q.num.toNat := by
      rw [Rat.floor_def', hden, Nat.cast_one, Int.ediv_one]
    show packArray tbl ⌊q⌋.toNat = _
    rw [hfloor]
    exact h
  · cases h

/-- **An array or a map.** -/
theorem packTable_ok {es : List (MpValue × MpValue)} {out : List UInt8}
    (h : packTable o.array (MpValue.packEntries narrow o es) = .ok out) :
    (∀ n, MpValue.arrayLength o.array (es.map Prod.fst) = some n →
        packArray (MpValue.packEntries narrow o es) n = .ok out) ∧
      (MpValue.arrayLength o.array (es.map Prod.fst) = none →
        packMap (MpValue.packEntries narrow o es) es.length = .ok out) := by
  have hkeys : (MpValue.packEntries narrow o es).map (·.key) = es.map Prod.fst := by
    rw [MpValue.packEntries_eq, List.map_map]
    rfl
  have hlen : (MpValue.packEntries narrow o es).length = es.length := by
    rw [MpValue.packEntries_eq, List.length_map]
  unfold packTable at h
  unfold MpValue.arrayLength
  rw [hlen, hkeys] at h
  cases ho : o.array with
  | without_hole =>
    rw [ho] at h
    dsimp only at h ⊢
    split_ifs at h ⊢ with harr
    · refine ⟨fun n hn => ?_, fun hn => by cases hn⟩
      obtain rfl := Option.some.inj hn
      rwa [List.length_map]
    · exact ⟨fun n hn => (by cases hn), fun _ => h⟩
  | with_hole =>
    rw [ho] at h
    dsimp only at h ⊢
    split_ifs at h ⊢ with hmap
    · exact ⟨fun n hn => (by cases hn), fun _ => h⟩
    · refine ⟨fun n hn => ?_, fun hn => by cases hn⟩
      obtain rfl := Option.some.inj hn
      exact packArrayTo_ok h
  | always_as_map =>
    rw [ho] at h
    exact ⟨fun n hn => (by cases hn), fun _ => h⟩

theorem packTable_ne_nil {es : List (MpValue × MpValue)} {out : List UInt8}
    (h : packTable o.array (MpValue.packEntries narrow o es) = .ok out) : out ≠ [] := by
  obtain ⟨harr, hmap⟩ := packTable_ok h
  cases hlen : MpValue.arrayLength o.array (es.map Prod.fst) with
  | some n =>
    obtain ⟨head, items, rfl, hhead, -⟩ := packArray_header (fun _ => 0) (m := 0) (harr n hlen)
    exact List.append_ne_nil_of_left_ne_nil hhead _
  | none =>
    obtain ⟨head, entries, rfl, hhead, -⟩ := packMap_header (fun _ => 0) (m := 0) (hmap hlen)
    exact List.append_ne_nil_of_left_ne_nil hhead _

/-- A table, when its entries are read back. -/
theorem read_packTable (hcast : o.number = .float → FloatCast widen narrow) {es : List (MpValue × MpValue)}
    (hv : (MpValue.table es).Wf) {out : List UInt8}
    (h : packTable o.array (MpValue.packEntries narrow o es) = .ok out)
    (hread : ∀ p ∈ es, ReadsAs (unpackAny widen (m + 1)) m (p.1.pack narrow o) (p.1.canon widen narrow o) ∧
      ReadsAs (unpackAny widen (m + 1)) m (p.2.pack narrow o) (p.2.canon widen narrow o))
    (hm : out.length ≤ m + 1) (q : List UInt8) :
    (unpackAny widen (m + 2)).read (out ++ q) = some (.ok ((MpValue.table es).canon widen narrow o), q) := by
  have hes := MpValue.wfEntries_iff.1 hv.2
  obtain ⟨harr, hmap⟩ := packTable_ok h
  rw [MpValue.canon]
  cases hlen : MpValue.arrayLength o.array (es.map Prod.fst) with
  | some n =>
    obtain ⟨head, items, rfl, hhead, hn, hitems, hloop⟩ := packArray_header widen (m := m + 1) (harr n hlen)
    have hpos := List.length_pos_iff.2 hhead
    rw [List.length_append] at hm
    -- an array is packed by its indices, and a missing one as nil
    have hreads : List.Forall₂ (ReadsAs (unpackAny widen (m + 1)) m)
        ((List.range' 1 n).map (packItem (MpValue.packEntries narrow o es)))
        ((List.range' 1 n).map fun i =>
          rawget (MpValue.canonItems widen narrow o es) (.integer (Int64.ofNat i))) := by
      rw [List.forall₂_map_left_iff, List.forall₂_map_right_iff, List.forall₂_same]
      exact fun i _ => packItem_reads (fun p hp => (hread p hp).2) (fun q => read_any_cons 0xC0 q) i
    have hread' := read_unpackArray hreads hitems (by omega) 1 [] q
    rw [List.length_map, List.length_range'] at hread'
    rw [List.append_assoc, hloop, hread', storeFrom_eq _ (by omega) (fun p hp => absurd hp List.not_mem_nil)]
    rfl
  | none =>
    obtain ⟨head, entries, rfl, hhead, hentries, hloop⟩ := packMap_header widen (m := m + 1) (hmap hlen)
    have hpos := List.length_pos_iff.2 hhead
    rw [List.length_append] at hm
    rw [List.append_assoc, hloop]
    exact read_unpackMap hread (fun p hp => setEntry_canon hcast (hes p hp).1) [] hentries (by omega) q

theorem read_packInteger (n : Int64) : (unpackAny widen (m + 1)).read (o.packInteger n.toInt ++ q) =
    some (.ok (.integer n), q) := by
  have hlo := n.le_toInt
  have hhi := n.toInt_lt
  have hsigned := read_packSigned widen (m := m) (q := q) hlo hhi
  have hunsigned := read_packUnsigned widen (m := m) (q := q) hlo hhi
  rw [Int64.ofInt_toInt] at hsigned hunsigned
  unfold MpOptions.packInteger
  cases o.number with
  | integer => exact hsigned
  | float | double =>
    cases o.integer with
    | unsigned => exact hunsigned
    | signed => exact hsigned

/-- **Floats**, under each option. -/
theorem read_packFloat {bits : UInt64} {out : List UInt8} (h : o.packFloat narrow bits = .ok out) :
    (unpackAny widen (m + 1)).read (out ++ q) = some (.ok (MpValue.canonFloat widen narrow o.number bits), q) := by
  unfold MpOptions.packFloat at h
  unfold MpValue.canonFloat
  cases ho : o.number with
  | integer =>
    rw [ho] at h
    dsimp only at h ⊢
    unfold packSignedFloat at h
    obtain ⟨n, hn⟩ | hn := MpValue.floatKey_eq bits
    · rw [hn] at h ⊢
      obtain rfl := Except.ok.inj h
      have hread := read_packSigned widen (m := m) (q := q) n.le_toInt n.toInt_lt
      rwa [Int64.ofInt_toInt] at hread
    · rw [hn] at h
      dsimp only at h
      split at h <;> cases h
  | float =>
    rw [ho] at h
    obtain rfl := Except.ok.inj h
    rw [List.cons_append, read_any_cons]
    show (call 4 _).read _ = _
    rw [read_call_append (length_packU 4 _), unpackU_packU (narrow bits).toNat_lt, read_done, UInt32.ofNat_toNat]
  | double =>
    rw [ho] at h
    obtain rfl := Except.ok.inj h
    rw [List.cons_append, read_any_cons]
    show (call 8 _).read _ = _
    rw [read_call_append (length_packU 8 _), unpackU_packU bits.toNat_lt, read_done, UInt64.ofNat_toNat]

variable (widen) in
/-- **Reading back what was packed**, whatever follows. -/
theorem read_pack (hcast : o.number = .float → FloatCast widen narrow) (hv : v.Wf) {out : List UInt8}
    (h : v.pack narrow o = .ok out) {m : ℕ} (hm : out.length ≤ m) (q : List UInt8) :
    (unpackAny widen (m + 1)).read (out ++ q) = some (.ok (v.canon widen narrow o), q) := by
  induction v using MpValue.entries_induction generalizing out m q with
  | nil =>
    obtain rfl := Except.ok.inj h
    exact read_any_cons 0xC0 q
  | boolean b =>
    obtain rfl := Except.ok.inj h
    cases b
    · exact read_any_cons 0xC2 q
    · exact read_any_cons 0xC3 q
  | integer n =>
    obtain rfl := Except.ok.inj h
    exact read_packInteger n
  | float bits => exact read_packFloat h
  | string s => exact read_packString h q
  | table es ih =>
    -- the head of the table is a byte at least, so its entries are read with less fuel
    have hout : out ≠ [] := packTable_ne_nil h
    obtain ⟨m, rfl⟩ : ∃ m', m = m' + 1 := by
      have hpos := List.length_pos_iff.2 hout
      exact ⟨m - 1, by omega⟩
    refine read_packTable hcast hv h ?_ hm q
    intro p hp
    have hwf := MpValue.wfEntries_iff.1 hv.2 p hp
    exact ⟨fun b hb hlen q => (ih p hp).1 hwf.2.2.1 hb hlen q,
      fun b hb hlen q => (ih p hp).2 hwf.2.2.2 hb hlen q⟩
  | other type => cases h

end Qsf
