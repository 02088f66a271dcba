import Qsf.Spec.LuaZmqOptions

/-!
# Which options are read back as they were set

One lemma says that a setter that succeeds writes its own cell and no other
(`setter_cell`), and one lemma for each way to write and read a cell when the value comes back.
`survives_iff` collects them.
-/

set_option autoImplicit false

namespace Qsf

variable {conv : Conversions} {stack : ℕ → UInt8} {z85 : List UInt8 → List UInt8} {buffer : List UInt8}
variable {opt : ZmqOption} {v : LuaValue} {cells cells' : ZmqOptions} {bs : List UInt8}

/-! ## Setters write one cell -/

theorem checkThrow_ok (h : checkThrow (zmqSetsockopt cells opt bs) = .ok cells') :
    opt.kind.Sets bs.length ∧ cells' = Function.update cells opt bs := by
  unfold zmqSetsockopt at h
  by_cases hsets : opt.kind.Sets bs.length
  · rw [if_pos hsets] at h
    exact ⟨hsets, (Except.ok.inj h).symm⟩
  · rw [if_neg hsets] at h
    cases h

theorem setInt_ok (h : setInt conv opt v cells = .ok cells') :
    ∃ n, luaTointegerx conv.toInteger v = some n ∧ cells' = Function.update cells opt (storeInt n) := by
  unfold setInt at h
  cases hn : luaTointegerx conv.toInteger v with
  | none => rw [hn] at h; cases h
  | some n => rw [hn] at h; exact ⟨n, rfl, (checkThrow_ok h).2⟩

theorem setString_ok (h : setString conv opt v cells = .ok cells') :
    ∃ s, luaTolstring conv.toLstring v = some s ∧ opt.kind.Sets s.length ∧
      cells' = Function.update cells opt s := by
  unfold setString at h
  cases hs : luaTolstring conv.toLstring v with
  | none => rw [hs] at h; cases h
  | some s => rw [hs] at h; exact ⟨s, rfl, checkThrow_ok h⟩

theorem setAddress_ok (h : setAddress conv stack opt v cells = .ok cells') :
    ∃ s, luaTolstring conv.toLstring v = some s ∧ opt.kind.Sets s.length ∧
      cells' = Function.update cells opt ((List.range s.length).map stack) := by
  unfold setAddress at h
  cases hs : luaTolstring conv.toLstring v with
  | none => rw [hs] at h; cases h
  | some s =>
    rw [hs] at h
    obtain ⟨hsets, hcells⟩ := checkThrow_ok h
    rw [List.length_map, List.length_range] at hsets
    exact ⟨s, rfl, hsets, hcells⟩

theorem setBoolean_ok (h : setBoolean opt v cells = .ok cells') :
    cells' = Function.update cells opt (storeInt (luaToboolean v).toInt) :=
  (checkThrow_ok h).2

theorem setUint64_ok (h : setUint64 conv opt v cells = .ok cells') :
    ∃ bs, cells' = Function.update cells opt bs := by
  unfold setUint64 at h
  cases hn : conv.toNumber v with
  | none => rw [hn] at h; cases h
  | some n => rw [hn] at h; exact ⟨_, (checkThrow_ok h).2⟩

theorem setKey_ok {len : ℕ} (h : setKey conv opt len v cells = .ok cells') :
    ∃ bs, cells' = Function.update cells opt bs := by
  unfold setKey at h
  cases hs : luaTolstring conv.toLstring v with
  | none => rw [hs] at h; cases h
  | some s =>
    simp only [hs] at h
    by_cases hlen : s.length = len
    · rw [if_pos hlen] at h
      exact ⟨_, (checkThrow_ok h).2⟩
    · rw [if_neg hlen] at h
      cases h

/-- **A setter that succeeds** writes the cell of its option. -/
theorem setter_cell (h : opt.setter conv stack v cells = .ok cells') :
    ∃ bs, cells' = Function.update cells opt bs := by
  cases opt with
  | immediate | ipv6 => exact ⟨_, setBoolean_ok h⟩
  | maxmsgsize => exact setUint64_ok h
  | identity =>
    obtain ⟨s, -, -, hcells⟩ := setString_ok h
    exact ⟨s, hcells⟩
  | plainUsername | plainPassword =>
    obtain ⟨s, -, -, hcells⟩ := setAddress_ok h
    exact ⟨_, hcells⟩
  | curvePublickey | curveSecretkey | curveServerkey => exact setKey_ok h
  | _ =>
    obtain ⟨n, -, hcells⟩ := setInt_ok h
    exact ⟨_, hcells⟩

/-! ## Getters read it -/

theorem getInt_update (hk : opt.kind = .int) (bs : List UInt8) :
    getInt z85 opt (Function.update cells opt bs) = .returns (.integer (loadInt bs)) := by
  unfold getInt zmqGetsockopt
  rw [hk]
  simp only [Function.update_self, if_true]

theorem getBoolean_update (hk : opt.kind = .int) (bs : List UInt8) :
    getBoolean z85 opt (Function.update cells opt bs) = .returns (.boolean (loadInt bs ≠ 0)) := by
  unfold getBoolean zmqGetsockopt
  rw [hk]
  simp only [Function.update_self, if_true]

/-- The cell has eight bytes, the buffer four. -/
theorem getInt_int64 (z85 : List UInt8 → List UInt8) (opt : ZmqOption) (hk : opt.kind = .int64)
    (cells : ZmqOptions) : getInt z85 opt cells = .raises zmqError := by
  unfold getInt zmqGetsockopt
  rw [hk]
  rfl

/-- No form of a key has 48 bytes. -/
theorem getString_key (z85 : List UInt8 → List UInt8) (buffer : List UInt8) (opt : ZmqOption)
    (hk : opt.kind = .key) (cells : ZmqOptions) :
    getString z85 buffer opt 48 cells = .raises zmqError := by
  unfold getString zmqGetsockopt
  rw [hk]
  rfl

theorem getString_identity (hk : opt.kind = .identity) (hlen : bs.length ≤ 256) :
    getString z85 buffer opt 256 (Function.update cells opt bs) =
      luaPushstring (bs ++ buffer.drop bs.length) := by
  unfold getString zmqGetsockopt
  rw [hk]
  simp only [Function.update_self, if_pos hlen]

/-- The NUL of ZeroMQ ends the string. -/
theorem getString_text (hk : opt.kind = .text) (hlen : bs.length ≤ 255) :
    getString z85 buffer opt 256 (Function.update cells opt bs) = .returns (.string (cstr bs)) := by
  have hmem : (0 : UInt8) ∈ bs ++ [0] := List.mem_append_right _ List.mem_cons_self
  have hcstr : cstr (bs ++ [0]) = cstr bs := by
    by_cases h0 : 0 ∈ bs
    · exact cstr_append_of_mem h0
    · rw [cstr_append_of_notMem h0, cstr_eq_self h0]
      exact List.append_nil bs
  have hfit : bs.length + 1 ≤ 256 := by omega
  unfold getString zmqGetsockopt
  rw [hk]
  simp only [Function.update_self, if_pos hfit]
  unfold luaPushstring readCString
  rw [List.drop_zero, if_pos (List.mem_append_left _ hmem), cstr_append_of_mem hmem, hcstr]

/-! ## Values that come back -/

/-- **The option is read back as it was set**: the getter returns the value that the setter
found in its argument, and every other option is as it was. -/
structure ReadBack (conv : Conversions) (z85 : List UInt8 → List UInt8) (buffer : List UInt8)
    (opt : ZmqOption) (v : LuaValue) (cells cells' : ZmqOptions) : Prop where
  value : ∃ x, opt.value conv v = some x ∧ opt.getter z85 buffer cells' = .returns x
  others : ∀ other, other ≠ opt → cells' other = cells other

/-- When the value comes back. -/
def Survives (conv : Conversions) (stack : ℕ → UInt8) (buffer : List UInt8) (v : LuaValue) :
    ZmqOption → Prop
  | .ipv6 => True
  | .immediate => False           -- set as a boolean, read as an integer
  | .maxmsgsize => False          -- eight bytes, read as four
  | .curvePublickey | .curveSecretkey | .curveServerkey => False
  | .identity => ∃ s, luaTolstring conv.toLstring v = some s ∧ 0 ∉ s ∧ buffer[s.length]? = some 0
  | .plainUsername | .plainPassword =>
    ∃ s, luaTolstring conv.toLstring v = some s ∧ 0 ∉ s ∧ (List.range s.length).map stack = s
  | _ => ∃ n, luaTointegerx conv.toInteger v = some n ∧ -2147483648 ≤ n ∧ n < 2147483648

/-- A string in memory is read back when no NUL is in it, and one behind it. -/
theorem luaPushstring_iff (s rest : List UInt8) :
    luaPushstring (s ++ rest) = .returns (.string s) ↔ 0 ∉ s ∧ rest.head? = some 0 := by
  unfold luaPushstring readCString
  rw [List.drop_zero]
  by_cases h0 : 0 ∈ s
  · -- it ends too early
    have hne : cstr s ≠ s := fun heq => zero_notMem_cstr s (heq.symm ▸ h0)
    rw [if_pos (List.mem_append_left _ h0), cstr_append_of_mem h0]
    simp only [GetterResult.returns.injEq, LuaValue.string.injEq]
    exact ⟨fun heq => absurd heq hne, fun h => absurd h0 h.1⟩
  · rw [cstr_append_of_notMem h0]
    cases rest with
    | nil =>
      rw [List.append_nil, if_neg h0]
      exact ⟨nofun, fun h => nomatch h.2⟩
    | cons b rest =>
      by_cases hb : b = 0
      · subst hb
        rw [if_pos (List.mem_append_right _ List.mem_cons_self)]
        simp [cstr, h0]
      · have hcstr : cstr (b :: rest) = b :: cstr rest := List.takeWhile_cons_of_pos (by simpa using hb)
        rw [hcstr]
        refine ⟨?_, fun h => absurd (Option.some.inj h.2) hb⟩
        intro h
        by_cases hmem : 0 ∈ s ++ b :: rest
        · rw [if_pos hmem] at h
          simp at h
        · rw [if_neg hmem] at h
          cases h

/-- A string that is cut off at its first NUL. -/
theorem cstr_eq_iff {bs s : List UInt8} (hlen : bs.length = s.length) :
    cstr bs = s ↔ 0 ∉ s ∧ bs = s := by
  constructor
  · intro h
    have hpre : s <+: bs := h ▸ List.takeWhile_prefix _
    have heq : s = bs := hpre.eq_of_length hlen.symm
    exact ⟨h ▸ zero_notMem_cstr bs, heq.symm⟩
  · rintro ⟨h0, rfl⟩
    exact cstr_eq_self h0

theorem setInt_getInt (z85 : List UInt8 → List UInt8) (hk : opt.kind = .int)
    (h : setInt conv opt v cells = .ok cells') :
    (∃ x, (luaTointegerx conv.toInteger v).map LuaValue.integer = some x ∧ getInt z85 opt cells' = .returns x) ↔
      ∃ n, luaTointegerx conv.toInteger v = some n ∧ -2147483648 ≤ n ∧ n < 2147483648 := by
  obtain ⟨n, hn, rfl⟩ := setInt_ok h
  rw [getInt_update hk, loadInt_storeInt, hn]
  constructor
  · rintro ⟨x, hx, hget⟩
    cases hx
    simp only [GetterResult.returns.injEq, LuaValue.integer.injEq] at hget
    exact ⟨n, rfl, int32_eq_iff.1 hget⟩
  · rintro ⟨m, hm, hrange⟩
    cases hm
    exact ⟨.integer n, rfl, by rw [int32_eq_iff.2 hrange]⟩

theorem setBoolean_getBoolean (z85 : List UInt8 → List UInt8) (opt : ZmqOption)
    (hk : opt.kind = .int) (h : setBoolean opt v cells = .ok cells') :
    getBoolean z85 opt cells' = .returns (.boolean (luaToboolean v)) := by
  rw [setBoolean_ok h, getBoolean_update hk, loadInt_storeInt]
  cases luaToboolean v <;> rfl

/-- A boolean that is read as an integer. -/
theorem setBoolean_getInt (z85 : List UInt8 → List UInt8) (opt : ZmqOption) (hk : opt.kind = .int)
    (h : setBoolean opt v cells = .ok cells') :
    ∃ n, getInt z85 opt cells' = .returns (.integer n) :=
  ⟨_, by rw [setBoolean_ok h, getInt_update hk]⟩

theorem setString_getString (z85 : List UInt8 → List UInt8) (hk : opt.kind = .identity)
    (h : setString conv opt v cells = .ok cells') :
    (∃ x, (luaTolstring conv.toLstring v).map LuaValue.string = some x ∧
      getString z85 buffer opt 256 cells' = .returns x) ↔
      ∃ s, luaTolstring conv.toLstring v = some s ∧ 0 ∉ s ∧ buffer[s.length]? = some 0 := by
  obtain ⟨s, hs, hsets, rfl⟩ := setString_ok h
  rw [hk] at hsets
  rw [getString_identity hk (le_trans hsets.2 (by decide)), hs]
  have hiff := luaPushstring_iff s (buffer.drop s.length)
  rw [List.head?_drop] at hiff
  constructor
  · rintro ⟨x, hx, hget⟩
    cases hx
    exact ⟨s, rfl, hiff.1 hget⟩
  · rintro ⟨s', hs', hback⟩
    cases hs'
    exact ⟨.string s, rfl, hiff.2 hback⟩

theorem setAddress_getString (z85 : List UInt8 → List UInt8) (buffer : List UInt8)
    (hk : opt.kind = .text) (h : setAddress conv stack opt v cells = .ok cells') :
    (∃ x, (luaTolstring conv.toLstring v).map LuaValue.string = some x ∧
      getString z85 buffer opt 256 cells' = .returns x) ↔
      ∃ s, luaTolstring conv.toLstring v = some s ∧ 0 ∉ s ∧ (List.range s.length).map stack = s := by
  obtain ⟨s, hs, hsets, rfl⟩ := setAddress_ok h
  have hlen : ((List.range s.length).map stack).length = s.length := by
    rw [List.length_map, List.length_range]
  rw [hk] at hsets
  rw [getString_text hk (hlen.symm ▸ hsets.2), hs]
  have hiff := cstr_eq_iff hlen
  constructor
  · rintro ⟨x, hx, hget⟩
    cases hx
    simp only [GetterResult.returns.injEq, LuaValue.string.injEq] at hget
    exact ⟨s, rfl, hiff.1 hget⟩
  · rintro ⟨s', hs', hback⟩
    cases hs'
    exact ⟨.string s, rfl, by rw [hiff.2 hback]⟩

/-- The getter raises an error. -/
theorem not_returns {e : LuaRaise} {g : GetterResult} {x? : Option LuaValue} (h : g = .raises e) :
    ¬ ∃ x, x? = some x ∧ g = .returns x := by
  rintro ⟨x, -, hx⟩
  rw [h] at hx
  cases hx

/-- **The getter returns what the setter found**, one way of writing and reading at a time. -/
theorem value_iff (opt : ZmqOption) (v : LuaValue) (stack : ℕ → UInt8) (z85 : List UInt8 → List UInt8)
    (buffer : List UInt8) (h : opt.setter conv stack v cells = .ok cells') :
    (∃ x, opt.value conv v = some x ∧ opt.getter z85 buffer cells' = .returns x) ↔
      Survives conv stack buffer v opt := by
  cases opt with
  | ipv6 =>
    exact ⟨fun _ => trivial, fun _ => ⟨.boolean (luaToboolean v), rfl, setBoolean_getBoolean z85 .ipv6 rfl h⟩⟩
  | immediate =>
    refine ⟨?_, False.elim⟩
    rintro ⟨x, hx, hget⟩
    obtain ⟨n, hn⟩ := setBoolean_getInt z85 .immediate rfl h
    rw [← Option.some.inj hx] at hget
    cases hn.symm.trans hget
  | maxmsgsize => exact ⟨not_returns (getInt_int64 z85 .maxmsgsize rfl cells'), False.elim⟩
  | curvePublickey => exact ⟨not_returns (getString_key z85 buffer .curvePublickey rfl cells'), False.elim⟩
  | curveSecretkey => exact ⟨not_returns (getString_key z85 buffer .curveSecretkey rfl cells'), False.elim⟩
  | curveServerkey => exact ⟨not_returns (getString_key z85 buffer .curveServerkey rfl cells'), False.elim⟩
  | identity => exact setString_getString z85 rfl h
  | plainUsername | plainPassword => exact setAddress_getString z85 buffer rfl h
  | _ => exact setInt_getInt z85 rfl h

/-- **Exactly which options are read back as they were set**, for every value that a setter
accepts. -/
theorem readBack_iff (opt : ZmqOption) (v : LuaValue) (stack : ℕ → UInt8)
    (z85 : List UInt8 → List UInt8)
    (buffer : List UInt8) (h : opt.setter conv stack v cells = .ok cells') :
    ReadBack conv z85 buffer opt v cells cells' ↔ Survives conv stack buffer v opt := by
  have hvalue := value_iff opt v stack z85 buffer h
  refine ⟨fun hb => hvalue.1 hb.value, fun hs => ⟨hvalue.2 hs, ?_⟩⟩
  obtain ⟨bs, rfl⟩ := setter_cell h
  exact fun other hne => Function.update_of_ne hne bs cells

/-- A linger period of five milliseconds. -/
theorem readBack_linger :
    let conv : Conversions := ⟨fun _ => none, fun _ => none, fun _ => none, fun _ => 0⟩
    let fresh : ZmqOptions := fun _ => []
    ReadBack conv id [] .linger (.integer 5) fresh (Function.update fresh .linger (storeInt 5)) := by
  intro conv fresh
  have hset : ZmqOption.linger.setter conv (fun _ => 0) (.integer 5) fresh =
      .ok (Function.update fresh .linger (storeInt 5)) := rfl
  exact (readBack_iff .linger (.integer 5) (fun _ => 0) id [] hset).2 ⟨5, rfl, by decide, by decide⟩

/-- **Five values that do not come back**: a limit of 1024 bytes for messages, `true` for
`immediate`, a user name, of which the address of its address is taken, an identity with a
NUL in it, and a key. -/
theorem readBack_not :
    let conv : Conversions := ⟨fun _ => none, fun _ => none, fun _ => some 0x4090000000000000, fun _ => 1024⟩
    let fresh : ZmqOptions := fun _ => []
    let key : LuaValue := .string (List.replicate 32 1)
    ∀ p ∈ ([(.maxmsgsize, .integer 1024), (.immediate, .boolean true), (.plainUsername, .string [98]),
        (.identity, .string [97, 0, 98]), (.curvePublickey, key)] : List (ZmqOption × LuaValue)),
      ∃ cells', p.1.setter conv (fun _ => 64) p.2 fresh = .ok cells' ∧
        ¬ ReadBack conv id (List.replicate 256 0) p.1 p.2 fresh cells' := by
  intro conv fresh key p hp
  -- each is accepted, and none of them can survive
  have hset : ∃ cells', p.1.setter conv (fun _ => 64) p.2 fresh = .ok cells' := by
    simp only [List.mem_cons, List.not_mem_nil, or_false] at hp
    rcases hp with rfl | rfl | rfl | rfl | rfl <;> exact ⟨_, rfl⟩
  have hout : ¬ Survives conv (fun _ => 64) (List.replicate 256 0) p.2 p.1 := by
    simp only [List.mem_cons, List.not_mem_nil, or_false] at hp
    rcases hp with rfl | rfl | rfl | rfl | rfl
    · exact id
    · exact id
    · rintro ⟨s, hs, -, hstack⟩
      cases hs
      exact absurd hstack (by decide)
    · rintro ⟨s, hs, h0, -⟩
      cases hs
      exact absurd h0 (by decide)
    · exact id
  obtain ⟨cells', hcells⟩ := hset
  exact ⟨cells', hcells, fun hb => hout ((value_iff p.1 p.2 _ id _ hcells).1 hb.value)⟩

end Qsf
