import Qsf.Proof.MessagePackCursor

/-!
# MessagePack: the round trips
-/

set_option autoImplicit false

namespace Qsf

open Program

variable {widen : UInt32 → UInt64} {narrow : UInt64 → UInt32} {o : MpOptions}
  {n : ℕ} {bs q r : List UInt8} {v k : MpValue}

/-! ## `m.unpack` -/

/-- One byte behind the value is not noticed. -/
theorem mpUnpack_eq (widen : UInt32 → UInt64) (s : List UInt8) : mpUnpack widen s =
    (decodeBytes widen s).bind fun x => if 2 ≤ x.2.length then .error .extraBytes else .ok x.1 := by
  obtain ⟨hok, hrest⟩ := MpCursor.ofString_init s
  obtain ⟨hmap, hkept⟩ := decodeAt_eq widen (n := s.length)
    (fun k c hc => MpCursor.ofString_take hc k) hok (by rw [hrest])
  rw [hrest] at hmap
  rw [mpUnpack, ← hmap]
  cases hd : decodeAt widen s.length (.ofString s) with
  | error e => rfl
  | ok x =>
    have hx := hkept x hd
    have hlen := hx.rest_length
    have hiff : x.2.i < x.2.j ↔ 2 ≤ x.2.rest.length := by
      rw [hlen, ← hx.2.2]
      omega
    show (if x.2.i < x.2.j then _ else _) = if 2 ≤ x.2.rest.length then _ else _
    rw [if_congr hiff rfl rfl]

variable (widen) in
/-- A packed value, and what follows. -/
theorem decodeBytes_pack (hcast : o.number = .float → FloatCast widen narrow) (hv : v.Wf) {out : List UInt8}
    (h : mpPack narrow o v = .ok out) (q : List UInt8) :
    decodeBytes widen (out ++ q) = .ok (v.canon widen narrow o, q) := by
  have hread := read_pack widen hcast hv h (m := (out ++ q).length)
    (by rw [List.length_append]; omega) q
  rw [decodeBytes, readValue, hread]

/-- A packed value that was cut off. -/
theorem decodeBytes_truncated (hcast : o.number = .float → FloatCast widen narrow) (hv : v.Wf) {pre : List UInt8}
    (h : mpPack narrow o v = .ok (pre ++ q)) (hq : q ≠ []) : decodeBytes widen pre = .error .missingBytes := by
  have hread := read_pack widen hcast hv h le_rfl []
  rw [List.append_nil] at hread
  have hnone := read_prefix hread (List.length_pos_iff.2 hq)
  rw [read_any_eq (by rw [List.length_append]; omega)] at hnone
  rw [decodeBytes, hnone]

/-! ## Fields -/

namespace MpValue

/-- `v[k]`, nil where `v` is no table. -/
def field (v k : MpValue) : MpValue :=
  match v with
  | .table es => rawget es k
  | _ => .nil

/-- `v[k1][k2]..`. -/
def path (v : MpValue) (ks : List MpValue) : MpValue := ks.foldl field v

def isTable : MpValue → Bool
  | .table _ => Bool.true
  | _ => Bool.false

/-- A key that a program can write down. -/
def isScalar : MpValue → Bool
  | .table _ | .other _ => Bool.false
  | _ => Bool.true

/-- Both are tables, or they are the same. -/
def Alike (v w : MpValue) : Prop := (v.isTable ∧ w.isTable) ∨ v = w

/-- The keys that come back: those of an array if they are integers, those of a map if what is
unpacked from them is what they are. -/
def KeysKept (widen : UInt32 → UInt64) (narrow : UInt64 → UInt32) (o : MpOptions) (keys : List MpValue) : Prop :=
  match arrayLength o.array keys with
  | some _ => ∀ k ∈ keys, ∃ n, k = .integer n
  | none => ∀ k ∈ keys, k.isScalar → k.canon widen narrow o = k

mutual

/-- All keys come back, and all floats are what they were; so for the tables in fields. -/
def Intact (widen : UInt32 → UInt64) (narrow : UInt64 → UInt32) (o : MpOptions) : MpValue → Prop
  | .table es => KeysKept widen narrow o (es.map Prod.fst) ∧ IntactEntries widen narrow o es
  | .float bits => canonFloat widen narrow o.number bits = .float bits
  | _ => True

def IntactEntries (widen : UInt32 → UInt64) (narrow : UInt64 → UInt32) (o : MpOptions) :
    List (MpValue × MpValue) → Prop
  | [] => True
  | (k, v) :: es => (k.isScalar → v.Intact widen narrow o) ∧ IntactEntries widen narrow o es

end

theorem intactEntries_iff {es : List (MpValue × MpValue)} :
    IntactEntries widen narrow o es ↔ ∀ p ∈ es, p.1.isScalar → p.2.Intact widen narrow o := by
  induction es with
  | nil => exact ⟨fun _ p hp => absurd hp List.not_mem_nil, fun _ => trivial⟩
  | cons p es ih => rw [List.forall_mem_cons, IntactEntries, ih]

theorem rawequal_iff {k' : MpValue} (hk : k.isScalar) : k'.rawequal k = Bool.true ↔ k' = k := by
  cases k with
  | table es => cases hk
  | other type => cases hk
  | _ => cases k' <;> simp [rawequal]

/-- What is looked up is in an entry with the key. -/
theorem rawget_mem {es : List (MpValue × MpValue)} (hk : k.isScalar) (h : rawget es k ≠ .nil) :
    (k, rawget es k) ∈ es := by
  rw [rawget] at h ⊢
  cases hf : es.find? fun p => p.1.rawequal k with
  | none => rw [hf] at h; exact absurd rfl h
  | some p =>
    have hp := List.find?_some hf
    have hp : p.1 = k := (rawequal_iff hk).1 hp
    show (k, p.2) ∈ es
    rw [← hp]
    exact List.mem_of_find?_eq_some hf

theorem rawget_of_mem {es : List (MpValue × MpValue)} (hk : k.isScalar)
    (hd : es.Pairwise fun p q => p.1.rawequal q.1 = Bool.false) (h : (k, v) ∈ es) : rawget es k = v := by
  induction es with
  | nil => exact absurd h List.not_mem_nil
  | cons p es ih =>
    obtain ⟨hp, hes⟩ := List.pairwise_cons.1 hd
    rw [rawget, List.find?_cons]
    rcases List.mem_cons.1 h with rfl | h
    · rw [(rawequal_iff hk).2 rfl]
      rfl
    · rw [hp _ h]
      exact ih hes h

/-- A lookup, when the values are replaced and the keys are found as before. -/
theorem rawget_map {es : List (MpValue × MpValue)} {f : MpValue × MpValue → MpValue × MpValue}
    (hkey : ∀ p ∈ es, (f p).1.rawequal k = p.1.rawequal k) (hval : ∀ p ∈ es, (f p).2 = p.2.canon widen narrow o) :
    rawget (es.map f) k = (rawget es k).canon widen narrow o := by
  induction es with
  | nil => rfl
  | cons p es ih =>
    have htail := ih (fun p' hp' => hkey p' (List.mem_cons_of_mem p hp'))
      fun p' hp' => hval p' (List.mem_cons_of_mem p hp')
    rw [rawget, rawget] at htail ⊢
    rw [List.map_cons, List.find?_cons, List.find?_cons, hkey p List.mem_cons_self]
    cases p.1.rawequal k with
    | true => exact hval p List.mem_cons_self
    | false => exact htail

theorem rawget_canonItems (es : List (MpValue × MpValue)) :
    rawget (canonItems widen narrow o es) k = (rawget es k).canon widen narrow o := by
  rw [canonItems_eq]
  exact rawget_map (fun _ _ => rfl) fun _ _ => rfl

theorem mem_slots {es : List (MpValue × MpValue)} {p : MpValue × MpValue} :
    p ∈ slots es n ↔ ∃ i, 1 ≤ i ∧ i ≤ n ∧ p.1 = .integer (Int64.ofNat i) ∧ p.2 = rawget es p.1 ∧ p.2 ≠ .nil := by
  rw [slots, List.mem_filterMap]
  constructor
  · rintro ⟨i, hi, hp⟩
    rw [List.mem_range'_1] at hi
    unfold slot at hp
    split at hp
    next => cases hp
    next hne =>
      obtain rfl := Option.some.inj hp
      exact ⟨i, hi.1, by omega, rfl, rfl, hne⟩
  · rintro ⟨i, hi, hn, hkey, hval, hne⟩
    refine ⟨i, List.mem_range'_1.2 ⟨hi, by omega⟩, ?_⟩
    obtain ⟨k, v⟩ := p
    dsimp only at hkey hval hne
    subst hkey hval
    unfold slot
    split
    next he => exact absurd he hne
    next => rfl

/-- What an array has is what was looked up for it. -/
theorem rawget_slots {es : List (MpValue × MpValue)} (hk : k.isScalar) (h : rawget (slots es n) k ≠ .nil) :
    rawget (slots es n) k = rawget es k := by
  obtain ⟨i, -, -, -, hval, -⟩ := mem_slots.1 (rawget_mem hk h)
  exact hval

/-- An array has all its indices. -/
theorem rawget_slots_index {es : List (MpValue × MpValue)} {i : ℕ} (hi : 1 ≤ i) (hn : i ≤ n) :
    rawget (slots es n) (.integer (Int64.ofNat i)) = rawget es (.integer (Int64.ofNat i)) := by
  by_cases hslot : rawget (slots es n) (.integer (Int64.ofNat i)) = .nil
  swap
  · exact rawget_slots rfl hslot
  rw [hslot]
  by_contra hne
  have hmem : (MpValue.integer (Int64.ofNat i), rawget es (.integer (Int64.ofNat i))) ∈ slots es n :=
    mem_slots.2 ⟨i, hi, hn, rfl, rfl, fun e => hne e.symm⟩
  rw [rawget] at hslot
  cases hf : (slots es n).find? fun q => q.1.rawequal (.integer (Int64.ofNat i)) with
  | none =>
    have hnone := List.find?_eq_none.1 hf _ hmem
    exact hnone ((rawequal_iff rfl).2 rfl)
  | some q =>
    rw [hf] at hslot
    obtain ⟨-, -, -, -, -, hqne⟩ := mem_slots.1 (List.mem_of_find?_eq_some hf)
    exact hqne hslot

end MpValue

/-! ## Which tables are seen as arrays -/

/-- What the loop of `packers['_table']` has established. -/
theorem foldl_step {keys : List MpValue} {t : TableScan} (h : (keys.foldl TableScan.step t).isMap = false) :
    t.isMap = false ∧ (keys.foldl TableScan.step t).n = t.n + keys.length ∧
      t.max ≤ (keys.foldl TableScan.step t).max ∧
      ∀ k ∈ keys, ∃ x, k.number = some x ∧ 0 < x ∧ x ≤ (keys.foldl TableScan.step t).max := by
  induction keys generalizing t with
  | nil => exact ⟨h, rfl, le_rfl, fun k hk => absurd hk List.not_mem_nil⟩
  | cons k keys ih =>
    rw [List.foldl_cons] at h ⊢
    obtain ⟨hmap, hn, hmax, hkeys⟩ := ih h
    unfold TableScan.step at hmap
    cases hk : k.number with
    | none => rw [hk] at hmap; cases hmap
    | some x =>
      rw [hk] at hmap
      dsimp only at hmap
      by_cases hx : 0 < x
      · rw [if_pos hx] at hmap
        have hstep : t.step k = { t with max := if t.max < x then x else t.max, n := t.n + 1 } := by
          unfold TableScan.step
          rw [hk]
          exact if_pos hx
        rw [hstep] at hn hmax hkeys ⊢
        dsimp only at hn hmax
        have hle : t.max ≤ (if t.max < x then x else t.max) ∧ x ≤ (if t.max < x then x else t.max) := by
          split
          next hlt => exact ⟨hlt.le, le_rfl⟩
          next hlt => exact ⟨le_rfl, not_lt.1 hlt⟩
        refine ⟨hmap, by rw [hn, List.length_cons]; omega, hle.1.trans hmax, ?_⟩
        intro k' hk'
        rcases List.mem_cons.1 hk' with rfl | hk'
        · exact ⟨x, hk, hx, hle.2.trans hmax⟩
        · exact hkeys k' hk'
      · rw [if_neg hx] at hmap
        cases hmap

namespace MpValue

/-- An array is no map, and is as long as its largest key says. -/
theorem scan_of_arrayLength {a : ArrayOption} {keys : List MpValue} (h : arrayLength a keys = some n) :
    (scanKeys keys).isMap = Bool.false ∧ maxIndex (scanKeys keys).max = n := by
  cases a with
  | without_hole =>
    rw [arrayLength] at h
    split_ifs at h with harr
    obtain rfl := Option.some.inj h
    unfold isArray at harr
    dsimp only at harr
    rw [Bool.and_eq_true, Bool.not_eq_true', beq_iff_eq] at harr
    obtain ⟨-, hn, -, -⟩ := foldl_step (t := ⟨Bool.false, 0, 0⟩) harr.1
    rw [Nat.zero_add] at hn
    refine ⟨harr.1, ?_⟩
    rw [harr.2]
    show ⌊((scanKeys keys).n : ℚ)⌋.toNat = _
    rw [Int.floor_natCast]
    exact hn
  | with_hole =>
    rw [arrayLength] at h
    split_ifs at h with hmap
    exact ⟨Bool.eq_false_iff.2 hmap, Option.some.inj h⟩
  | always_as_map => cases h

/-- **An array has no key but positive numbers**, up to its length. -/
theorem number_of_array {a : ArrayOption} {keys : List MpValue} (h : arrayLength a keys = some n)
    (hk : k ∈ keys) : ∃ x, k.number = some x ∧ 0 < x ∧ x ≤ (scanKeys keys).max :=
  (foldl_step (scan_of_arrayLength h).1).2.2.2 k hk

theorem scalar_of_array {a : ArrayOption} {keys : List MpValue} (h : arrayLength a keys = some n)
    (hk : k ∈ keys) : k.isScalar := by
  obtain ⟨x, hx, -⟩ := number_of_array h hk
  cases k with
  | table es => cases hx
  | other type => cases hx
  | _ => rfl

theorem le_maxIndex {j : Int64} {x : WithBot (WithTop ℚ)} (h : (((j.toInt : ℚ) : WithTop ℚ) : WithBot (WithTop ℚ)) ≤ x) :
    j.toInt ≤ maxIndex x := by
  unfold maxIndex
  split
  next q =>
    have hle : (j.toInt : ℚ) ≤ q := WithTop.coe_le_coe.1 (WithBot.coe_le_coe.1 h)
    have hfloor := Int.le_floor.2 hle
    omega
  next =>
    have hlt := j.toInt_lt
    omega

/-- An integer among the keys of an array is one of its indices. -/
theorem integer_of_array {a : ArrayOption} {keys : List MpValue} (h : arrayLength a keys = some n) {j : Int64}
    (hj : MpValue.integer j ∈ keys) : ∃ i, 1 ≤ i ∧ i ≤ n ∧ j = Int64.ofNat i := by
  obtain ⟨x, hx, hpos, hle⟩ := number_of_array h hj
  obtain rfl := Option.some.inj hx
  have hpos : (0 : ℚ) < j.toInt := WithTop.coe_lt_coe.1 (WithBot.coe_lt_coe.1 hpos)
  rw [Int.cast_pos] at hpos
  have hindex := le_maxIndex hle
  rw [(scan_of_arrayLength h).2] at hindex
  refine ⟨j.toInt.toNat, by omega, by omega, ?_⟩
  rw [← Int64.ofInt_eq_ofNat, Int.toNat_of_nonneg hpos.le, Int64.ofInt_toInt]

/-! ## Which keys a map keeps -/

theorem tableKey_of_key (hk : k.Key) : k.tableKey = k := by
  cases k with
  | float bits => exact hk.2
  | _ => rfl

variable (widen narrow o) in
/-- What is unpacked from a key that is no scalar is no scalar. -/
theorem canon_not_scalar (hk : ¬ k.isScalar) : ¬ (k.canon widen narrow o).isScalar := by
  cases k with
  | table es =>
    obtain ⟨fs, h⟩ := canon_table widen narrow o es
    rw [h]
    exact Bool.false_ne_true
  | other type => exact Bool.false_ne_true
  | _ => exact absurd rfl hk

theorem rawequal_of_not_scalar {k' : MpValue} (hk : ¬ k.isScalar) :
    k.rawequal k' = Bool.false ∧ k'.rawequal k = Bool.false := by
  cases k with
  | table es => exact ⟨rfl, by cases k' <;> rfl⟩
  | other type => exact ⟨rfl, by cases k' <;> rfl⟩
  | _ => exact absurd rfl hk

/-- Two keys that come back are as different as before. -/
theorem rawequal_canon {k' : MpValue} (hk : k.isScalar → k.canon widen narrow o = k)
    (hk' : k'.isScalar → k'.canon widen narrow o = k') :
    (k.canon widen narrow o).rawequal (k'.canon widen narrow o) = k.rawequal k' := by
  by_cases hs : k.isScalar
  · by_cases hs' : k'.isScalar
    · rw [hk hs, hk' hs']
    · rw [(rawequal_of_not_scalar hs').2, (rawequal_of_not_scalar (canon_not_scalar widen narrow o hs')).2]
  · rw [(rawequal_of_not_scalar hs).1, (rawequal_of_not_scalar (canon_not_scalar widen narrow o hs)).1]

/-- Entries with different keys are stored behind each other. -/
theorem storeAll_eq {t es : List (MpValue × MpValue)} (hes : ∀ p ∈ es, p.1.tableKey = p.1 ∧ p.2 ≠ .nil)
    (hd : (t ++ es).Pairwise fun p q => p.1.rawequal q.1 = Bool.false) : storeAll t es = t ++ es := by
  induction es generalizing t with
  | nil => exact (List.append_nil t).symm
  | cons p es ih =>
    obtain ⟨hkey, hval⟩ := hes p List.mem_cons_self
    have hnew : ∀ p' ∈ t, p'.1.rawequal p.1 = Bool.false :=
      fun p' hp' => (List.pairwise_append.1 hd).2.2 p' hp' p List.mem_cons_self
    rw [List.append_cons] at hd ⊢
    show storeAll (rawset t p.1.tableKey p.2) es = _
    rw [hkey, rawset_new hval hnew]
    exact ih (fun p' hp' => hes p' (List.mem_cons_of_mem p hp')) hd

end MpValue

/-! ## The round trip, field by field -/

namespace MpValue

/-- **A map whose keys come back** holds what is unpacked from its entries. -/
theorem storeAll_canon {es : List (MpValue × MpValue)} (hv : (MpValue.table es).Wf)
    (hkept : ∀ p ∈ es, p.1.isScalar → p.1.canon widen narrow o = p.1) :
    storeAll [] (canonEntries widen narrow o es) = canonEntries widen narrow o es := by
  obtain ⟨hd, hes⟩ := hv
  rw [wfEntries_iff] at hes
  rw [canonEntries_eq]
  refine storeAll_eq (t := []) ?_ ?_
  · rintro q hq
    obtain ⟨p, hp, rfl⟩ := List.mem_map.1 hq
    refine ⟨?_, canon_ne_nil (hes p hp).2.1⟩
    by_cases hs : p.1.isScalar
    · rw [hkept p hp hs]
      exact tableKey_of_key (hes p hp).1
    · have hns := canon_not_scalar widen narrow o hs
      dsimp only
      cases hc : p.1.canon widen narrow o with
      | float bits => exact absurd (hc ▸ rfl) hns
      | _ => rfl
  · rw [List.nil_append, List.pairwise_map]
    refine hd.imp_of_mem fun hp hq hne => ?_
    rwa [rawequal_canon (hkept _ hp) (hkept _ hq)]

/-- **A field of what is unpacked**, where the keys come back. -/
theorem field_canon {es : List (MpValue × MpValue)} (hv : (MpValue.table es).Wf)
    (hkept : KeysKept widen narrow o (es.map Prod.fst)) (hk : k.isScalar) :
    ((MpValue.table es).canon widen narrow o).field k = ((MpValue.table es).field k).canon widen narrow o := by
  rw [canon]
  unfold KeysKept at hkept
  cases hlen : arrayLength o.array (es.map Prod.fst) with
  | some n =>
    rw [hlen] at hkept
    show rawget (slots (canonItems widen narrow o es) n) k = (rawget es k).canon widen narrow o
    rw [← rawget_canonItems]
    by_cases hkey : k ∈ es.map Prod.fst
    · -- an integer among the keys is an index of the array
      obtain ⟨j, rfl⟩ := hkept k hkey
      obtain ⟨i, hi, hn, rfl⟩ := integer_of_array hlen hkey
      exact rawget_slots_index hi hn
    · have hnil : rawget (canonItems widen narrow o es) k = .nil := by
        by_contra hne
        have hmem := rawget_mem hk hne
        rw [canonItems_eq] at hmem
        obtain ⟨p, hp, he⟩ := List.mem_map.1 hmem
        have hfst : p.1 = k := congrArg Prod.fst he
        exact hkey (hfst ▸ List.mem_map_of_mem hp)
      by_contra hne
      rw [hnil] at hne
      exact hne ((rawget_slots hk hne).trans hnil)
  | none =>
    rw [hlen] at hkept
    have hkept : ∀ p ∈ es, p.1.isScalar → p.1.canon widen narrow o = p.1 :=
      fun p hp => hkept p.1 (List.mem_map_of_mem hp)
    show rawget (storeAll [] (canonEntries widen narrow o es)) k = (rawget es k).canon widen narrow o
    rw [storeAll_canon hv hkept, canonEntries_eq]
    refine rawget_map (fun p hp => ?_) fun _ _ => rfl
    by_cases hs : p.1.isScalar
    · rw [hkept p hp hs]
    · rw [(rawequal_of_not_scalar hs).1, (rawequal_of_not_scalar (canon_not_scalar widen narrow o hs)).1]

/-- An array with a key that is no integer comes back without it. -/
theorem field_slots {es : List (MpValue × MpValue)} (hlen : arrayLength o.array (es.map Prod.fst) = some n)
    (hk : k.isScalar) (hint : ∀ j, k ≠ .integer j) : ((MpValue.table es).canon widen narrow o).field k = .nil := by
  rw [canon, hlen]
  by_contra hne
  obtain ⟨i, -, -, hkey, -⟩ := mem_slots.1 (rawget_mem hk hne)
  exact hint _ hkey

theorem mem_rawset {t : List (MpValue × MpValue)} {p : MpValue × MpValue} (h : p ∈ rawset t k v) :
    p ∈ t ∨ p.1 = k := by
  unfold rawset at h
  split at h
  · exact .inl (List.mem_filter.1 h).1
  · split at h
    · obtain ⟨q, hq, rfl⟩ := List.mem_map.1 h
      split
      · exact .inr rfl
      · exact .inl hq
    · exact (List.mem_append.1 h).imp id fun h => by rw [List.mem_singleton.1 h]

/-- Only the keys of entries are stored. -/
theorem mem_storeAll {t es : List (MpValue × MpValue)} {p : MpValue × MpValue} (h : p ∈ storeAll t es) :
    p ∈ t ∨ ∃ q ∈ es, p.1 = q.1.tableKey := by
  induction es generalizing t with
  | nil => exact .inl h
  | cons q es ih =>
    rcases ih h with ht | ⟨q', hq', hkey⟩
    · exact (mem_rawset ht).imp id fun hkey => ⟨q, List.mem_cons_self, hkey⟩
    · exact .inr ⟨q', List.mem_cons_of_mem q hq', hkey⟩

/-- Only under `set_number'float'` a key does not come back, and it is a float. -/
theorem float_of_lost (hkey : k.Key) (hk : k.isScalar) (hlost : k.canon widen narrow o ≠ k) :
    o.number = .float ∧ ∃ bits, k = .float bits ∧ widen (narrow bits) ≠ bits := by
  cases k with
  | float bits =>
    rw [canon] at hlost
    unfold canonFloat at hlost
    cases ho : o.number with
    | integer =>
      rw [ho] at hlost
      exact absurd hkey.2 hlost
    | double =>
      rw [ho] at hlost
      exact absurd rfl hlost
    | float =>
      rw [ho] at hlost
      exact ⟨rfl, bits, rfl, fun e => hlost (congrArg MpValue.float e)⟩
  | table es => cases hk
  | other type => cases hk
  | _ => exact absurd rfl hlost

/-- What is stored under a float was the key of a float. -/
theorem float_of_stored {bits : UInt64} (ho : o.number = .float) (h : (k.canon widen narrow o).tableKey = .float bits) :
    ∃ b, k = .float b ∧ widen (narrow b) = bits := by
  cases k with
  | float b =>
    rw [canon] at h
    unfold canonFloat at h
    rw [ho] at h
    refine ⟨b, rfl, ?_⟩
    obtain ⟨j, hj⟩ | hsame := floatKey_eq (widen (narrow b))
    · rw [show tableKey (.float (widen (narrow b))) = .integer j from hj] at h
      cases h
    · exact MpValue.float.inj (hsame.symm.trans h)
  | table fs =>
    obtain ⟨fs', hfs⟩ := canon_table widen narrow o fs
    rw [hfs] at h
    cases h
  | _ => cases h

/-- A key of a map that does not come back is not there afterwards either. -/
theorem field_storeAll (hcast : o.number = .float → FloatCast widen narrow) {es : List (MpValue × MpValue)}
    (hlen : arrayLength o.array (es.map Prod.fst) = none) (hes : ∀ p ∈ es, p.1.Key) (hkey : k.Key) (hk : k.isScalar)
    (hlost : k.canon widen narrow o ≠ k) : ((MpValue.table es).canon widen narrow o).field k = .nil := by
  rw [canon, hlen]
  by_contra hne
  obtain h | ⟨q, hq, hstored⟩ := mem_storeAll (rawget_mem hk hne)
  · cases h
  rw [canonEntries_eq] at hq
  obtain ⟨p, hp, rfl⟩ := List.mem_map.1 hq
  obtain ⟨ho, bits, rfl, hbits⟩ := float_of_lost hkey hk hlost
  -- it would be the `float` of another key, and so its own
  obtain ⟨b, hb, rfl⟩ := float_of_stored ho hstored.symm
  exact hbits ((hcast ho).again b (hb ▸ hes p hp).1)

/-- **The keys come back**, if all fields do. -/
theorem keysKept_of_fields (hcast : o.number = .float → FloatCast widen narrow) {es : List (MpValue × MpValue)}
    (hes : ∀ p ∈ es, p.1.Key)
    (hfields : ∀ p ∈ es, p.1.isScalar → ((MpValue.table es).canon widen narrow o).field p.1 ≠ .nil) :
    KeysKept widen narrow o (es.map Prod.fst) := by
  unfold KeysKept
  cases hlen : arrayLength o.array (es.map Prod.fst) with
  | some n =>
    intro k hmem
    obtain ⟨p, hp, rfl⟩ := List.mem_map.1 hmem
    have hk := scalar_of_array hlen hmem
    by_contra hint
    exact hfields p hp hk (field_slots hlen hk fun j e => hint ⟨j, e⟩)
  | none =>
    intro k hmem hk
    obtain ⟨p, hp, rfl⟩ := List.mem_map.1 hmem
    by_contra hlost
    exact hfields p hp hk (field_storeAll hcast hlen hes (hes p hp) hk hlost)

theorem alike_ne_nil {w : MpValue} (h : Alike v w) (hv : v ≠ .nil) : w ≠ .nil := by
  rintro rfl
  rcases h with ⟨-, htable⟩ | he
  · cases htable
  · exact hv he

/-- **Path by path.** -/
theorem path_canon_iff (hcast : o.number = .float → FloatCast widen narrow) (hv : v.Wf) :
    (∀ ks : List MpValue, (∀ k ∈ ks, k.isScalar) → Alike (v.path ks) ((v.canon widen narrow o).path ks)) ↔
      v.Intact widen narrow o := by
  induction v using entries_induction with
  | table es ih =>
    have hes := wfEntries_iff.1 hv.2
    rw [Intact, intactEntries_iff]
    have hfield : ∀ p ∈ es, p.1.isScalar → (MpValue.table es).field p.1 = p.2 :=
      fun p hp hk => rawget_of_mem hk hv.1 hp
    constructor
    · intro h
      have hkept : KeysKept widen narrow o (es.map Prod.fst) := by
        refine keysKept_of_fields hcast (fun p hp => (hes p hp).1) fun p hp hk => ?_
        have halike := h [p.1] fun k hmem => List.mem_singleton.1 hmem ▸ hk
        refine alike_ne_nil halike ?_
        show (MpValue.table es).field p.1 ≠ .nil
        rw [hfield p hp hk]
        exact (hes p hp).2.1
      refine ⟨hkept, ?_⟩
      intro p hp hk
      refine ((ih p hp).2 (hes p hp).2.2.2).1 fun ks hks => ?_
      have halike := h (p.1 :: ks) fun k hmem => (List.mem_cons.1 hmem).elim (fun e => e ▸ hk) (hks k)
      have hcanon : ((MpValue.table es).canon widen narrow o).path (p.1 :: ks) =
          (((MpValue.table es).field p.1).canon widen narrow o).path ks :=
        congrArg (path · ks) (field_canon hv hkept hk)
      have hsame : (MpValue.table es).path (p.1 :: ks) = ((MpValue.table es).field p.1).path ks := rfl
      rwa [hcanon, hsame, hfield p hp hk] at halike
    · rintro ⟨hkept, hsub⟩ ks hks
      cases ks with
      | nil =>
        obtain ⟨fs, hfs⟩ := canon_table widen narrow o es
        exact .inl ⟨rfl, hfs ▸ rfl⟩
      | cons k ks =>
        have hk := hks k List.mem_cons_self
        show Alike (((MpValue.table es).field k).path ks) ((((MpValue.table es).canon widen narrow o).field k).path ks)
        rw [field_canon hv hkept hk]
        by_cases hne : (MpValue.table es).field k = .nil
        · rw [hne]
          exact .inr rfl
        · have hmem := rawget_mem hk hne
          exact ((ih _ hmem).2 (hes _ hmem).2.2.2).2 (hsub _ hmem hk) ks fun k' hk' =>
            hks k' (List.mem_cons_of_mem k hk')
  | float bits =>
    rw [Intact, canon]
    constructor
    · intro h
      rcases h [] (fun k hk => absurd hk List.not_mem_nil) with ⟨htable, -⟩ | he
      · cases htable
      · exact he.symm
    · intro h ks _
      rw [h]
      exact .inr rfl
  | _ => exact ⟨fun _ => trivial, fun _ ks _ => .inr rfl⟩

end MpValue

/-- **Packing and unpacking.** A packed value is unpacked without an error, and to what `canon` says.
Every field, along every path of keys, is what it was **if and only if** no array has a key that is
no integer, and no float on the way is changed by the option for numbers. -/
theorem mp_round_trip (widen : UInt32 → UInt64) (narrow : UInt64 → UInt32) (o : MpOptions)
    (hcast : o.number = .float → FloatCast widen narrow) {v : MpValue} (hv : v.Wf) {out : List UInt8}
    (h : mpPack narrow o v = .ok out) :
    mpUnpack widen out = .ok (v.canon widen narrow o) ∧
      ((∀ ks : List MpValue, (∀ k ∈ ks, k.isScalar) → (v.path ks).Alike ((v.canon widen narrow o).path ks)) ↔
        v.Intact widen narrow o) := by
  refine ⟨?_, MpValue.path_canon_iff hcast hv⟩
  have hd := decodeBytes_pack widen hcast hv h []
  rw [List.append_nil] at hd
  rw [mpUnpack_eq, hd]
  rfl

theorem three_halves_key : (MpValue.float 0x3FF8000000000000).Key := by
  have hvalue : doubleRat 0x3FF8000000000000 = some (3 / 2) := by decide +kernel
  refine ⟨?_, ?_⟩
  · rw [MpValue.number, hvalue]
    exact Option.some_ne_none _
  · rw [floatKey, hvalue]
    exact if_neg (by decide +kernel)

/-- Conversions that know 0 and a tenth. -/
theorem floatCast_tenth : FloatCast (fun bits => if bits = 0 then 0 else 0x3FB99999A0000000)
    (fun bits => if bits = 0 then 0 else 0x3DCCCCCD) := by
  have hzero : (MpValue.float 0).number ≠ none := by decide +kernel
  have htenth : (MpValue.float 0x3FB99999A0000000).number ≠ none := by decide +kernel
  refine ⟨fun bits _ => ?_, fun bits _ => ?_⟩
  · by_cases h : bits = 0
    · rw [if_pos h]
      exact hzero
    · rw [if_neg h]
      exact htenth
  · by_cases h : bits = 0
    · rw [if_pos h]
      rfl
    · rw [if_neg h]
      rfl

/-- `{[1.5] = true, [2] = false}` is packed as an array of two, and loses its first field; 0.1 under
`set_number'float'` comes back as the `float` next to it. -/
theorem mp_round_trip_float :
    let v := MpValue.table [(.float 0x3FF8000000000000, .boolean true), (.integer 2, .boolean false)]
    let narrow : UInt64 → UInt32 := fun bits => if bits = 0 then 0 else 0x3DCCCCCD
    let widen : UInt32 → UInt64 := fun bits => if bits = 0 then 0 else 0x3FB99999A0000000
    let o : MpOptions := { MpOptions.default with number := .float }
    mpUnpack widen [0x92, 0xC0, 0xC2] = .ok (v.canon widen narrow .default) ∧
      (¬ ∀ ks : List MpValue, (∀ k ∈ ks, k.isScalar) → (v.path ks).Alike ((v.canon widen narrow .default).path ks)) ∧
      mpPack narrow o (.float 0x3FB999999999999A) = .ok [0xCA, 0x3D, 0xCC, 0xCC, 0xCD] ∧
      mpUnpack widen [0xCA, 0x3D, 0xCC, 0xCC, 0xCD] = .ok (.float 0x3FB99999A0000000) := by
  intro v narrow widen o
  have harr : isArray [.float 0x3FF8000000000000, .integer 2] = true := by decide +kernel
  have hwf : v.Wf := by
    refine ⟨?_, three_halves_key, ?_, trivial, trivial, trivial, ?_, trivial, trivial, trivial⟩
    · exact List.pairwise_cons.2 ⟨fun p hp => by rw [List.mem_singleton.1 hp]; rfl, List.pairwise_singleton _ _⟩
    · exact fun e => by cases e
    · exact fun e => by cases e
  have hpack : mpPack narrow .default v = .ok [0x92, 0xC0, 0xC2] := by
    show (if isArray [.float 0x3FF8000000000000, .integer 2] then _ else _) = _
    rw [if_pos harr]
    rfl
  have hlen : MpValue.arrayLength MpOptions.default.array
      (List.map Prod.fst [(MpValue.float 0x3FF8000000000000, MpValue.boolean true), (.integer 2, .boolean false)]) =
      some 2 :=
    if_pos harr
  have htenth : mpPack narrow o (.float 0x3FB999999999999A) = .ok [0xCA, 0x3D, 0xCC, 0xCC, 0xCD] := by
    have hbytes : 0xCA :: packU 4 (0x3DCCCCCD : UInt32).toNat = [0xCA, 0x3D, 0xCC, 0xCC, 0xCD] := by decide +kernel
    rw [← hbytes]
    rfl
  obtain ⟨hw, hiff⟩ := mp_round_trip widen narrow .default (fun h => by cases h) hwf hpack
  refine ⟨hw, fun hall => ?_, htenth, ?_⟩
  · have hkept := (hiff.1 hall).1
    unfold MpValue.KeysKept at hkept
    rw [hlen] at hkept
    obtain ⟨n, hn⟩ := hkept _ List.mem_cons_self
    cases hn
  · exact (mp_round_trip widen narrow o (fun _ => floatCast_tenth) (v := .float 0x3FB999999999999A) trivial htenth).1

/-- **What else `m.unpack` takes.** One byte behind a packed value is not noticed, more is an
error; of a packed value that was cut off, bytes are missing, wherever the cut is. -/
theorem mp_unpack_cut (widen : UInt32 → UInt64) (narrow : UInt64 → UInt32) (o : MpOptions)
    (hcast : o.number = .float → FloatCast widen narrow) {v : MpValue} (hv : v.Wf) {out : List UInt8}
    (h : mpPack narrow o v = .ok out) :
    (∀ extra, mpUnpack widen (out ++ extra) =
      if extra.length ≤ 1 then mpUnpack widen out else .error .extraBytes) ∧
    ∀ pre suf, out = pre ++ suf → suf ≠ [] → mpUnpack widen pre = .error .missingBytes := by
  have hd := fun q => decodeBytes_pack widen hcast hv h q
  have hout := hd []
  rw [List.append_nil] at hout
  refine ⟨?_, ?_⟩
  · intro extra
    rw [mpUnpack_eq, mpUnpack_eq, hd, hout]
    show (if 2 ≤ extra.length then _ else _) = if extra.length ≤ 1 then _ else _
    by_cases he : extra.length ≤ 1
    · rw [if_neg (by omega), if_pos he]
      rfl
    · rw [if_pos (by omega), if_neg he]
  · rintro pre suf rfl hsuf
    rw [mpUnpack_eq, decodeBytes_truncated hcast hv h hsuf]
    rfl

theorem mp_unpack_cut_ab :
    mpPack (fun _ => 0) .default (.string [65, 66]) = .ok [0xC4, 2, 65, 66] ∧
      mpUnpack (fun _ => 0) [0xC4, 2, 65, 66, 0] = mpUnpack (fun _ => 0) [0xC4, 2, 65, 66] ∧
      mpUnpack (fun _ => 0) [0xC4, 2, 65, 66, 0, 0] = .error .extraBytes ∧
      mpUnpack (fun _ => 0) [0xC4, 2, 65] = .error .missingBytes := by
  have hpack : mpPack (fun _ => 0) .default (.string [65, 66]) = .ok [0xC4, 2, 65, 66] := rfl
  obtain ⟨hextra, hcut⟩ := mp_unpack_cut (fun _ => 0) (fun _ => 0) .default (fun h => by cases h)
    (v := .string [65, 66]) trivial hpack
  exact ⟨hpack, hextra [0], hextra [0, 0], hcut [0xC4, 2, 65] [66] rfl (List.cons_ne_nil _ _)⟩

/-! ## Streams -/

variable (widen) in
theorem readAll_pack (hcast : o.number = .float → FloatCast widen narrow) {vs : List MpValue} {outs : List (List UInt8)}
    (h : List.Forall₂ (fun v out => v.Wf ∧ mpPack narrow o v = .ok out) vs outs) (hn : (outs.flatten ++ q).length < n) :
    ∃ m, q.length < m ∧ readAll widen n (outs.flatten ++ q) =
      (vs.map (MpValue.canon widen narrow o) ++ (readAll widen m q).1, (readAll widen m q).2) := by
  induction h generalizing n with
  | nil => exact ⟨n, hn, rfl⟩
  | @cons v out vs outs hv _ ih =>
    obtain ⟨n, rfl⟩ : ∃ k, n = k + 1 := ⟨n - 1, by omega⟩
    rw [List.flatten_cons, List.append_assoc] at hn ⊢
    have hd := decodeBytes_pack widen hcast hv.1 hv.2 (outs.flatten ++ q)
    have hlt := decodeBytes_length hd
    obtain ⟨m, hm, htail⟩ := ih (n := n) (by omega)
    refine ⟨m, hm, ?_⟩
    have hne : out ++ (outs.flatten ++ q) ≠ [] := List.length_pos_iff.1 (by omega)
    rw [readAll, if_neg hne, hd]
    dsimp only
    rw [htail]
    rfl

/-- **A stream is read alike however it is cut.** The values from a loader, and the error that ends
the iteration if one does, are those from the string of all chunks together. -/
theorem mp_loader_eq_string (widen : UInt32 → UInt64) (chunks : List (List UInt8)) :
    mpUnpackerLoader widen chunks = ((mpUnpackerString widen chunks.flatten).1.map Prod.snd,
      (mpUnpackerString widen chunks.flatten).2) ∧
    (mpUnpackerLoader widen chunks).2 ≠ some .unfinished := by
  rw [mpUnpackerString_eq, mpUnpackerLoader_eq]
  exact ⟨rfl, readAll_ne_unfinished (Nat.lt_succ_self _)⟩

/-- **Packed values in a stream.** From the bytes of packed values, in any chunks, come these
values in order, each as `m.unpack` gives it; and where the stream ends within a further value,
bytes are missing. -/
theorem mp_stream_packed (widen : UInt32 → UInt64) (narrow : UInt64 → UInt32) (o : MpOptions)
    (hcast : o.number = .float → FloatCast widen narrow) {vs : List MpValue}
    {outs : List (List UInt8)} (h : List.Forall₂ (fun v out => v.Wf ∧ mpPack narrow o v = .ok out) vs outs) :
    ∃ ws, List.Forall₂ (fun out w => mpUnpack widen out = .ok w) outs ws ∧
      (∀ chunks : List (List UInt8), chunks.flatten = outs.flatten → mpUnpackerLoader widen chunks = (ws, none)) ∧
      ∀ (chunks : List (List UInt8)) (v : MpValue) (pre suf : List UInt8), v.Wf → mpPack narrow o v = .ok (pre ++ suf) →
        pre ≠ [] → suf ≠ [] → chunks.flatten = outs.flatten ++ pre →
        mpUnpackerLoader widen chunks = (ws, some .missingBytes) := by
  refine ⟨vs.map (MpValue.canon widen narrow o), ?_, ?_, ?_⟩
  · rw [List.forall₂_map_right_iff]
    refine h.flip.imp ?_
    rintro out v ⟨hv, hout⟩
    have hd := decodeBytes_pack widen hcast hv hout []
    rw [List.append_nil] at hd
    rw [mpUnpack_eq, hd]
    rfl
  · intro chunks hc
    obtain ⟨m, hm, hread⟩ := readAll_pack widen hcast (q := []) h (Nat.lt_succ_self _)
    obtain ⟨m, rfl⟩ : ∃ k, m = k + 1 := ⟨m - 1, by omega⟩
    rw [List.append_nil] at hread
    rw [mpUnpackerLoader_eq, hc, hread]
    exact Prod.ext (List.append_nil _) rfl
  · intro chunks v pre suf hv hout hpre hsuf hc
    obtain ⟨m, hm, hread⟩ := readAll_pack widen hcast (q := pre) h (Nat.lt_succ_self _)
    obtain ⟨m, rfl⟩ : ∃ k, m = k + 1 := ⟨m - 1, by omega⟩
    rw [mpUnpackerLoader_eq, hc, hread, readAll, if_neg hpre, decodeBytes_truncated hcast hv hout hsuf]
    exact Prod.ext (List.append_nil _) rfl

theorem mp_stream_packed_two : ∃ ws,
    List.Forall₂ (fun out w => mpUnpack (fun _ => 0) out = .ok w) [[7], [0xC4, 2, 65, 66]] ws ∧
      mpUnpackerLoader (fun _ => 0) [[7, 0xC4], [], [2, 65], [66]] = (ws, none) := by
  have h : List.Forall₂ (fun v out => v.Wf ∧ mpPack (fun _ => 0) .default v = .ok out) [.integer 7, .string [65, 66]]
      [[7], [0xC4, 2, 65, 66]] := .cons ⟨trivial, rfl⟩ (.cons ⟨trivial, rfl⟩ .nil)
  obtain ⟨ws, hws, hchunks, -⟩ := mp_stream_packed (fun _ => 0) (fun _ => 0) .default (fun h => by cases h) h
  exact ⟨ws, hws, hchunks _ rfl⟩

/-! ## The shortest form -/

theorem length_packUnsigned_le {n : ℤ} : (packUnsigned n).length ≤ 9 := by
  unfold packUnsigned
  split_ifs <;> simp

/-- The number of bytes, by what `k` bytes behind the first can hold. -/
theorem length_packUnsigned {n : ℤ} :
    (-0x20 ≤ n → n ≤ 0x7F → (packUnsigned n).length = 1) ∧
    (-0x80 ≤ n → n ≤ 0xFF → (packUnsigned n).length ≤ 2) ∧
    (-0x8000 ≤ n → n ≤ 0xFFFF → (packUnsigned n).length ≤ 3) ∧
    (-0x80000000 ≤ n → n ≤ 0xFFFFFFFF → (packUnsigned n).length ≤ 5) := by
  unfold packUnsigned
  split_ifs <;> simp <;> omega

theorem unpackU_lt (bs : List UInt8) : unpackU bs < 256 ^ bs.length := by
  have hle : ∀ l : List UInt8, leNat l < 256 ^ l.length := by
    intro l
    induction l with
    | nil => exact Nat.one_pos
    | cons b l ih =>
      have hb : b.toNat < 256 := b.toNat_lt
      rw [leNat, List.length_cons, pow_succ]
      omega
  rw [unpackU, ← List.length_reverse]
  exact hle _

theorem unpackI_bounds (bs : List UInt8) :
    -(256 ^ bs.length : ℕ) ≤ 2 * unpackI bs ∧ 2 * unpackI bs < (256 ^ bs.length : ℕ) := by
  have hpos : 0 < 256 ^ bs.length := Nat.pow_pos (by norm_num)
  have hlo := Int.le_bmod (x := unpackU bs) hpos
  have hhi := Int.bmod_lt (x := unpackU bs) hpos
  rw [unpackI]
  omega

/-- The integers that `p` reads are packed in no more bytes than it took, and one. -/
def Shortest (p : Unpacker) : Prop :=
  ∀ bs n r, p.read bs = some (.ok (.integer n), r) → (packUnsigned n.toInt).length + r.length ≤ bs.length + 1

theorem shortest_done {x : Except MpError MpValue}
    (h : ∀ n, x = .ok (.integer n) → -0x20 ≤ n.toInt ∧ n.toInt ≤ 0x7F) : Shortest (.done x) := by
  intro bs n r hread
  rw [read_done, Option.some_inj, Prod.mk.injEq] at hread
  obtain ⟨hx, rfl⟩ := hread
  have hn := h n hx
  rw [length_packUnsigned.1 hn.1 hn.2]
  omega

theorem shortest_call {k : ℕ} {f : List UInt8 → Unpacker} (h : ∀ bs, bs.length = k → Shortest (f bs)) :
    Shortest (.call k f) := by
  intro bs n r hread
  rw [read_call] at hread
  split at hread
  next hk =>
    have hlen := h (bs.take k) (List.length_take_of_le hk) _ n r hread
    rw [List.length_drop] at hlen
    omega
  next => cases hread

/-- An integer from `k` bytes. -/
theorem shortest_integer {k : ℕ} {f : List UInt8 → Int64}
    (h : ∀ bs, bs.length = k → (packUnsigned (f bs).toInt).length ≤ k + 1) :
    Shortest (.call k fun bs => .done (.ok (.integer (f bs)))) := by
  intro bs n r hread
  rw [read_call] at hread
  split at hread
  next hk =>
    rw [read_done, Option.some_inj, Prod.mk.injEq, Except.ok.injEq, MpValue.integer.injEq] at hread
    obtain ⟨rfl, rfl⟩ := hread
    have hlen := h (bs.take k) (List.length_take_of_le hk)
    rw [List.length_drop]
    omega
  next => cases hread

theorem shortest_other {k : ℕ} {f : List UInt8 → MpValue} (h : ∀ bs n, f bs ≠ .integer n) :
    Shortest (.call k fun bs => .done (.ok (f bs))) :=
  shortest_call fun bs _ => shortest_done fun n e => absurd (Except.ok.inj e) (h bs n)

/-- The reader only returns tables. -/
def Tables (p : Unpacker) : Prop := ∀ bs w r, p.read bs = some (.ok w, r) → w.isTable

theorem Tables.shortest {p : Unpacker} (h : Tables p) : Shortest p := by
  intro bs n r hread
  cases h bs _ r hread

theorem tables_done {x : Except MpError MpValue} (h : ∀ w, x = .ok w → w.isTable) : Tables (.done x) := by
  intro bs w r hread
  rw [read_done, Option.some_inj, Prod.mk.injEq] at hread
  exact h w hread.1

theorem tables_bind {d : Unpacker} {f : Except MpError MpValue → Unpacker} (h : ∀ x, Tables (f x)) :
    Tables (d >>= f) := by
  intro bs w r hread
  rw [read_bind] at hread
  cases hd : d.read bs with
  | none => rw [hd] at hread; cases hread
  | some s =>
    rw [hd] at hread
    exact h s.1 s.2 w r hread

theorem tables_unpackArray (d : Unpacker) (n i : ℕ) (t : List (MpValue × MpValue)) :
    Tables (unpackArray d n i t) := by
  induction n generalizing i t with
  | zero => exact tables_done fun w e => Except.ok.inj e ▸ rfl
  | succ n ih =>
    refine tables_bind ?_
    rintro (e | v)
    · exact tables_done fun w e => by cases e
    · exact ih _ _

theorem tables_unpackMap (d : Unpacker) (n : ℕ) (t : List (MpValue × MpValue)) : Tables (unpackMap d n t) := by
  induction n generalizing t with
  | zero => exact tables_done fun w e => Except.ok.inj e ▸ rfl
  | succ n ih =>
    have herr : ∀ e, Tables (.done (.error e)) := fun e => tables_done fun w h => by cases h
    refine tables_bind ?_
    rintro (e | k)
    · exact herr e
    · refine tables_bind ?_
      rintro (e | val)
      · exact herr e
      · dsimp only
        cases setEntry t k val with
        | error e => exact herr e
        | ok t => exact ih t

theorem shortest_uint {k : ℕ} (hk : k = 1 ∨ k = 2 ∨ k = 4 ∨ k = 8) : Shortest (unpackUint k) := by
  refine shortest_integer fun bs hlen => ?_
  have hlt := unpackU_lt bs
  rw [hlen] at hlt
  rcases hk with rfl | rfl | rfl | rfl
  · rw [Int64.toInt_ofNat_of_lt (by omega)]
    exact length_packUnsigned.2.1 (by omega) (by omega)
  · rw [Int64.toInt_ofNat_of_lt (by omega)]
    exact length_packUnsigned.2.2.1 (by omega) (by omega)
  · rw [Int64.toInt_ofNat_of_lt (by omega)]
    exact length_packUnsigned.2.2.2 (by omega) (by omega)
  · exact length_packUnsigned_le

theorem shortest_int {k : ℕ} (hk : k = 1 ∨ k = 2 ∨ k = 4 ∨ k = 8) : Shortest (unpackInt k) := by
  refine shortest_integer fun bs hlen => ?_
  obtain ⟨hlo, hhi⟩ := unpackI_bounds bs
  rw [hlen] at hlo hhi
  rcases hk with rfl | rfl | rfl | rfl
  · rw [Int64.toInt_ofInt_of_le (by omega) (by omega)]
    exact length_packUnsigned.2.1 (by omega) (by omega)
  · rw [Int64.toInt_ofInt_of_le (by omega) (by omega)]
    exact length_packUnsigned.2.2.1 (by omega) (by omega)
  · rw [Int64.toInt_ofInt_of_le (by omega) (by omega)]
    exact length_packUnsigned.2.2.2 (by omega) (by omega)
  · exact length_packUnsigned_le

theorem fixnum_of_type (b : UInt8) : (typesMap b = .fixnum_pos → b.toNat < 0x80) ∧
    (typesMap b = .fixnum_neg → 0xE0 ≤ b.toNat) := by
  have h : ∀ n < 256, (typesMap (UInt8.ofNat n) = .fixnum_pos → n < 0x80) ∧
      (typesMap (UInt8.ofNat n) = .fixnum_neg → 0xE0 ≤ n) := by
    decide +kernel
  have hb := h b.toNat b.toNat_lt
  rwa [UInt8.ofNat_toNat] at hb

/-- Every unpacker, behind its first byte. -/
theorem shortest_unpackers (d : Unpacker) (b : UInt8) : Shortest (unpackers widen d b (typesMap b)) := by
  have hstr : ∀ k, Shortest (unpackStr k) := fun k => shortest_call fun bs _ => shortest_other fun s n e => by cases e
  have hfixext : ∀ k, Shortest (unpackFixext k) :=
    fun k => shortest_call fun _ _ => shortest_other fun _ n e => by cases e
  obtain ⟨hpos, hneg⟩ := fixnum_of_type b
  have hb := b.toNat_lt
  cases hty : typesMap b with
  | fixnum_pos =>
    have hlt := hpos hty
    refine shortest_done fun n e => ?_
    obtain rfl := MpValue.integer.inj (Except.ok.inj e)
    rw [Int64.toInt_ofNat_of_lt (by omega)]
    omega
  | fixnum_neg =>
    have hge := hneg hty
    refine shortest_done fun n e => ?_
    obtain rfl := MpValue.integer.inj (Except.ok.inj e)
    rw [Int64.toInt_ofInt_of_le (by omega) (by omega)]
    omega
  | fixmap => exact (tables_unpackMap _ _ _).shortest
  | fixarray => exact (tables_unpackArray _ _ _ _).shortest
  | map16 | map32 => exact shortest_call fun bs _ => (tables_unpackMap _ _ _).shortest
  | array16 | array32 => exact shortest_call fun bs _ => (tables_unpackArray _ _ _ _).shortest
  | nil | false | true | reserved => exact shortest_done fun n e => by cases e
  | fixstr | float | double => exact shortest_other fun s n e => by cases e
  | bin8 | bin16 | bin32 | str8 | str16 | str32 => exact hstr _
  | ext8 | ext16 | ext32 => exact shortest_call fun bs _ => hfixext _
  | fixext1 | fixext2 | fixext4 | fixext8 | fixext16 => exact hfixext _
  | uint8 | uint16 | uint32 | uint64 => exact shortest_uint (by decide)
  | int8 | int16 | int32 | int64 => exact shortest_int (by decide)

/-- **Integers are packed in the shortest form**: nothing that is unpacked to the same integer is
shorter. -/
theorem packUnsigned_shortest (widen : UInt32 → UInt64) (n : Int64) (s : List UInt8)
    (h : mpUnpack widen s = .ok (.integer n)) : (packUnsigned n.toInt).length ≤ s.length := by
  rw [mpUnpack_eq] at h
  cases hd : decodeBytes widen s with
  | error e => rw [hd] at h; cases h
  | ok x =>
    obtain ⟨v, rest⟩ := x
    rw [hd] at h
    change (if 2 ≤ rest.length then _ else Except.ok v) = _ at h
    split at h
    next => cases h
    next =>
      obtain rfl := Except.ok.inj h
      cases s with
      | nil => cases hd
      | cons b s =>
        unfold decodeBytes at hd
        split at hd
        next => cases hd
        next => cases hd
        next v r hread =>
          rw [Except.ok.injEq, Prod.mk.injEq] at hd
          rw [hd.1, readValue, List.length_cons, read_any_cons] at hread
          have hlen := shortest_unpackers _ b s n r hread
          rw [List.length_cons]
          omega

theorem packUnsigned_shortest_long : mpUnpack (fun _ => 0) [0xD3, 0, 0, 0, 0, 0, 0, 0, 200] = .ok (.integer 200) ∧
    (packUnsigned (200 : Int64).toInt).length ≤ 9 := by
  have h : mpUnpack (fun _ => 0) [0xD3, 0, 0, 0, 0, 0, 0, 0, 200] = .ok (.integer 200) := rfl
  exact ⟨h, packUnsigned_shortest (fun _ => 0) 200 _ h⟩

end Qsf
