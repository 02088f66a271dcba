import Qsf.Proof.MessagePack

/-!
# MessagePack: strings, loaders and streams
-/

set_option autoImplicit false

namespace Qsf

open Program

variable {widen : UInt32 → UInt64} {o : MpOptions} {k m n : ℕ} {bs q r : List UInt8} {v : MpValue}

/-! ## Enough fuel -/

/-- On at most `m` bytes, `d` and `d'` read the same, and do not run out of fuel. -/
def Settled (d d' : Unpacker) (m : ℕ) : Prop :=
  ∀ bs, bs.length ≤ m → d.read bs = d'.read bs ∧ ∀ r, d.read bs ≠ some (.error .unfinished, r)

theorem settled_done (x : Except MpError MpValue) (hx : x ≠ .error .unfinished) :
    Settled (.done x) (.done x) m := by
  intro bs _
  refine ⟨rfl, ?_⟩
  intro r he
  rw [read_done, Option.some_inj, Prod.mk.injEq] at he
  exact hx he.1

theorem settled_call {f f' : List UInt8 → Unpacker} (h : ∀ bs, Settled (f bs) (f' bs) m) :
    Settled (.call k f) (.call k f') m := by
  intro bs hm
  have hrest := h (bs.take k) (bs.drop k) (by rw [List.length_drop]; omega)
  rw [read_call, read_call]
  split
  · exact hrest
  · exact ⟨rfl, fun r he => by cases he⟩

/-- One value, then what is made of it. -/
theorem settled_bind {d d' : Unpacker} {f f' : Except MpError MpValue → Unpacker} (hd : Settled d d' m)
    (hf : ∀ x, x ≠ .error .unfinished → Settled (f x) (f' x) m) : Settled (d >>= f) (d' >>= f') m := by
  intro bs hm
  obtain ⟨heq, hne⟩ := hd bs hm
  rw [read_bind, read_bind, ← heq]
  cases hread : d.read bs with
  | none => exact ⟨rfl, fun r he => by cases he⟩
  | some s =>
    have hx : s.1 ≠ .error .unfinished := fun e => hne s.2 (by rw [hread, ← e])
    exact hf s.1 hx s.2 ((read_length_le hread).trans hm)

theorem settled_unpackArray {d d' : Unpacker} (hd : Settled d d' m) (n i : ℕ) (t : List (MpValue × MpValue)) :
    Settled (unpackArray d n i t) (unpackArray d' n i t) m := by
  induction n generalizing i t with
  | zero => exact settled_done _ fun e => by cases e
  | succ n ih =>
    refine settled_bind hd ?_
    rintro (e | v) hx
    · exact settled_done _ hx
    · exact ih (i + 1) _

theorem setEntry_ne_unfinished {t : List (MpValue × MpValue)} {k : MpValue} :
    setEntry t k v ≠ .error .unfinished := by
  unfold setEntry
  cases k with
  | float bits =>
    dsimp only
    split <;> exact fun e => by cases e
  | _ => exact fun e => by cases e

theorem settled_unpackMap {d d' : Unpacker} (hd : Settled d d' m) (n : ℕ) (t : List (MpValue × MpValue)) :
    Settled (unpackMap d n t) (unpackMap d' n t) m := by
  induction n generalizing t with
  | zero => exact settled_done _ fun e => by cases e
  | succ n ih =>
    refine settled_bind hd ?_
    rintro (e | k) hx
    · exact settled_done _ hx
    · refine settled_bind hd ?_
      rintro (e | val) hx
      · exact settled_done _ hx
      · have hne := setEntry_ne_unfinished (v := val) (t := t) (k := k)
        dsimp only
        cases hs : setEntry t k val with
        | error e => exact settled_done _ fun e' => hne (hs.trans (congrArg _ (Except.error.inj e')))
        | ok t => exact ih t

theorem settled_unpackers {d d' : Unpacker} (hd : Settled d d' m) (val : UInt8) (ty : MpType) :
    Settled (unpackers widen d val ty) (unpackers widen d' val ty) m := by
  have hok : ∀ v, Settled (.done (.ok v)) (.done (.ok v)) m := fun v => settled_done _ fun e => by cases e
  have hstr : ∀ k, Settled (unpackStr k) (unpackStr k) m :=
    fun k => settled_call fun bs => settled_call fun s => hok _
  have hfixext : ∀ n, Settled (unpackFixext n) (unpackFixext n) m :=
    fun n => settled_call fun _ => settled_call fun _ => hok _
  have hint : ∀ (k : ℕ) (f : List UInt8 → MpValue), Settled (.call k fun bs => .done (.ok (f bs)))
      (.call k fun bs => .done (.ok (f bs))) m := fun k f => settled_call fun bs => hok _
  cases ty with
  | fixmap => exact settled_unpackMap hd _ _
  | fixarray => exact settled_unpackArray hd _ _ _
  | map16 | map32 => exact settled_call fun bs => settled_unpackMap hd _ _
  | array16 | array32 => exact settled_call fun bs => settled_unpackArray hd _ _ _
  | bin8 | bin16 | bin32 | str8 | str16 | str32 => exact hstr _
  | ext8 | ext16 | ext32 => exact settled_call fun bs => hfixext _
  | fixext1 | fixext2 | fixext4 | fixext8 | fixext16 => exact hfixext _
  | reserved => exact settled_done _ fun e => by cases e
  | fixnum_pos | fixnum_neg | nil | false | true => exact hok _
  | fixstr | float | double => exact hint _ _
  | uint8 | uint16 | uint32 | uint64 | int8 | int16 | int32 | int64 => exact hint _ _

/-- **Every value takes a byte**: fuel for `n` bytes is as good as more. -/
theorem settled_any (n : ℕ) : Settled (unpackAny widen (n + 1)) (unpackAny widen (n + 2)) n := by
  induction n with
  | zero =>
    intro bs hbs
    rw [List.eq_nil_of_length_eq_zero (Nat.le_zero.1 hbs)]
    exact ⟨rfl, fun r he => by cases he⟩
  | succ n ih =>
    intro bs hbs
    cases bs with
    | nil => exact ⟨rfl, fun r he => by cases he⟩
    | cons b bs =>
      rw [read_any_cons, read_any_cons]
      exact settled_unpackers ih b (typesMap b) bs (Nat.le_of_succ_le_succ hbs)

/-- One value from a list of bytes. -/
def readValue (widen : UInt32 → UInt64) (bs : List UInt8) : Option (Except MpError MpValue × List UInt8) :=
  (unpackAny widen (bs.length + 1)).read bs

theorem read_any_eq (h : bs.length ≤ n) : (unpackAny widen (n + 1)).read bs = readValue widen bs := by
  induction n, h using Nat.le_induction with
  | base => rfl
  | succ n hn ih => rw [← ih, (settled_any n bs hn).1]

theorem readValue_ne_unfinished : readValue widen bs ≠ some (.error .unfinished, r) :=
  (settled_any bs.length bs le_rfl).2 r

/-- A value takes at least its first byte. -/
theorem readValue_length {x : Except MpError MpValue} (h : readValue widen bs = some (x, r)) :
    r.length < bs.length := by
  cases bs with
  | nil => cases h
  | cons b bs =>
    rw [readValue, List.length_cons, read_any_cons] at h
    exact Nat.lt_succ_of_le (read_length_le h)

/-! ## What a cursor stands for -/

namespace MpCursor

variable {c : MpCursor} {chunks : List (List UInt8)}

/-- The bytes that are still to be read. -/
def rest (c : MpCursor) : List UInt8 := c.s.drop (c.i - 1) ++ (c.chunks.getD []).flatten

/-- The cursor is in its string, or right behind it. -/
structure Sound (c : MpCursor) : Prop where
  one_le : 1 ≤ c.i
  le : c.i ≤ c.j + 1
  len : c.j = c.s.length

theorem Sound.rest_string (h : c.Sound) (hc : c.chunks = none) : c.rest.length = c.j + 1 - c.i := by
  have hle := h.one_le
  rw [rest, hc, Option.getD_none, List.flatten_nil, List.append_nil, List.length_drop, ← h.len]
  omega

variable (chunks) in
/-- **The loop that loads**: it stops when it has enough, or when there is nothing left. -/
theorem load_spec (e : ℕ) (hi : c.i = 1) (hj : c.j = c.s.length ∨ c.j < e ∧ c.s.length < e) :
    (e ≤ (c.s ++ chunks.flatten).length → ∃ c', c.load e chunks = (c', true) ∧ c'.Sound ∧ c'.i = 1 ∧
      c'.rest = c.s ++ chunks.flatten ∧ e ≤ c'.j ∧ c'.chunks ≠ none) ∧
    ((c.s ++ chunks.flatten).length < e → (c.load e chunks).2 = false ∧ (c.load e chunks).1.i = 1 ∧
      (c.load e chunks).1.j < e) := by
  -- on the chunks still to come: a round appends one to `s` until `j` reaches `e`
  induction chunks generalizing c with
  | nil =>
    rw [List.flatten_nil, List.append_nil, load]
    refine ⟨?_, ?_⟩
    · intro he
      have hlen : c.j = c.s.length := by omega
      refine ⟨{ c with chunks := some [] }, by rw [decide_eq_true (hlen ▸ he)],
        ⟨hi.ge, by dsimp only; omega, hlen⟩, hi, ?_, hlen ▸ he, Option.some_ne_none _⟩
      rw [rest, hi]
      exact List.append_nil _
    · intro he
      have hlt : c.j < e := by omega
      exact ⟨decide_eq_false (not_le.2 hlt), hi, hlt⟩
  | cons chunk chunks ih =>
    rw [load, List.flatten_cons, ← List.append_assoc]
    by_cases hle : e ≤ c.j
    · have hlen : c.j = c.s.length := by omega
      rw [if_pos hle]
      refine ⟨?_, ?_⟩
      · intro _
        refine ⟨{ c with chunks := some (chunk :: chunks) }, rfl, ⟨hi.ge, by dsimp only; omega, hlen⟩, hi, ?_, hle,
        Option.some_ne_none _⟩
        rw [rest, hi]
        exact (List.append_assoc _ _ _).symm
      · intro he
        rw [List.length_append, List.length_append] at he
        omega
    · rw [if_neg hle]
      exact ih (c := { c with s := c.s ++ chunk, j := (c.s ++ chunk).length }) hi (.inl rfl)

theorem underflow_loader (hc : c.chunks = some chunks) (e : ℕ) : c.underflow e =
    { c with s := c.s.drop (c.i - 1), i := 1, j := 0, chunks := some chunks }.load (e - c.i + 1) chunks := by
  rw [underflow, hc]

/-- What a request must do to the rest. -/
def Answers (k : ℕ) (c : MpCursor) : Prop :=
  (c.take k).map (fun s => (s.1, s.2.rest)) = answerTake k c.rest ∧ ∀ s, c.take k = some s → s.2.Sound

/-- The bytes are there. -/
theorem take_here (h : c.Sound) (hk : c.i + k - 1 ≤ c.j) :
    c.take k = some (c.rest.take k, { c with i := c.i + k }) ∧ k ≤ c.rest.length ∧
      MpCursor.rest { c with i := c.i + k } = c.rest.drop k ∧ MpCursor.Sound { c with i := c.i + k } := by
  have hle := h.one_le
  have hlen := h.len
  have hdrop : k ≤ (c.s.drop (c.i - 1)).length := by rw [List.length_drop]; omega
  refine ⟨?_, ?_, ?_, ⟨by dsimp only; omega, by dsimp only; omega, hlen⟩⟩
  · rw [take, if_neg (not_lt.2 hk), rest, List.take_append_of_le_length hdrop]
    rfl
  · rw [rest, List.length_append]
    omega
  · rw [rest, rest, List.drop_append_of_le_length hdrop, List.drop_drop]
    dsimp only
    rw [show c.i - 1 + k = c.i + k - 1 by omega]

theorem answers_here (h : c.Sound) (hk : c.i + k - 1 ≤ c.j) : c.Answers k := by
  obtain ⟨htake, hlen, hrest, hsound⟩ := take_here h hk
  rw [Answers, htake]
  refine ⟨?_, fun s hs => by rw [← Option.some_inj.1 hs]; exact hsound⟩
  rw [answerTake, if_pos hlen, ← hrest]
  rfl

/-- A cursor over a string. -/
theorem answers_string (h : c.Sound) (hc : c.chunks = none) (k : ℕ) :
    c.Answers k ∧ ∀ s, c.take k = some s → s.2.chunks = none ∧ s.2.j = c.j := by
  by_cases hk : c.i + k - 1 ≤ c.j
  · refine ⟨answers_here h hk, ?_⟩
    intro s hs
    rw [(take_here h hk).1] at hs
    rw [← Option.some_inj.1 hs]
    exact ⟨hc, rfl⟩
  · have hnone : c.take k = none := by
      rw [take, if_pos (not_le.1 hk), underflow, hc]
      rfl
    have hlen := h.rest_string hc
    have hone := h.one_le
    have hle := h.le
    refine ⟨⟨?_, fun s hs => by rw [hnone] at hs; cases hs⟩, fun s hs => by rw [hnone] at hs; cases hs⟩
    rw [hnone, answerTake, if_neg (by omega)]
    rfl

/-- **A cursor over a loader**, wherever the chunks end. -/
theorem answers_loader (h : c.Sound) (hc : c.chunks = some chunks) (k : ℕ) :
    c.Answers k ∧ ∀ s, c.take k = some s → s.2.chunks ≠ none := by
  have hle := h.one_le
  have hlen := h.len
  by_cases hk : c.i + k - 1 ≤ c.j
  · refine ⟨answers_here h hk, ?_⟩
    intro s hs
    rw [(take_here h hk).1] at hs
    rw [← Option.some_inj.1 hs]
    exact fun e => Option.some_ne_none _ (hc.symm.trans e)
  · have hle' := h.le
    have he : c.i + k - 1 - c.i + 1 = k := by omega
    have hrest : c.rest = c.s.drop (c.i - 1) ++ chunks.flatten := by rw [rest, hc]; rfl
    have hshort : (c.s.drop (c.i - 1)).length < k := by rw [List.length_drop]; omega
    obtain ⟨henough, hmissing⟩ := load_spec chunks
      (c := { c with s := c.s.drop (c.i - 1), i := 1, j := 0, chunks := some chunks })
      k rfl (.inr ⟨by dsimp only; omega, hshort⟩)
    dsimp only at henough hmissing
    rw [← hrest] at henough hmissing
    -- what is loaded starts at the first byte that is unread, so that positions start again at 1
    by_cases hall : k ≤ c.rest.length
    · obtain ⟨c', hload, hsound, hi, hrest', hkj, hchunks⟩ := henough hall
      have hloaded : c.take k = some ((c'.s.drop (c'.i - 1)).take k, { c' with i := c'.i + k }) := by
        rw [take, if_pos (not_le.1 hk), underflow_loader hc, he, hload]
        rfl
      have hhere : c'.take k = some ((c'.s.drop (c'.i - 1)).take k, { c' with i := c'.i + k }) := by
        rw [take, if_neg (show ¬ c'.i + k - 1 > c'.j by omega)]
        rfl
      have htake : c.take k = c'.take k := hloaded.trans hhere.symm
      have hans := answers_here hsound (k := k) (by omega)
      rw [Answers, htake, ← hrest']
      refine ⟨hans, ?_⟩
      intro s hs
      rw [(take_here hsound (by omega)).1] at hs
      rw [← Option.some_inj.1 hs]
      exact hchunks
    · have hnone : c.take k = none := by
        rw [take, if_pos (not_le.1 hk), underflow, hc]
        dsimp only
        rw [he, (hmissing (not_le.1 hall)).1]
        rfl
      refine ⟨⟨?_, fun s hs => by rw [hnone] at hs; cases hs⟩, fun s hs => by rw [hnone] at hs; cases hs⟩
      rw [hnone, answerTake, if_neg hall]
      rfl

/-- A cursor over a string of length `j`. -/
def OfString (j : ℕ) (c : MpCursor) : Prop := c.Sound ∧ c.chunks = none ∧ c.j = j

/-- A cursor over a loader. -/
def OfLoader (c : MpCursor) : Prop := c.Sound ∧ c.chunks ≠ none

theorem ofString_take {j : ℕ} (h : c.OfString j) (k : ℕ) :
    (c.take k).map (fun s => (s.1, s.2.rest)) = answerTake k c.rest ∧ ∀ s, c.take k = some s → s.2.OfString j := by
  obtain ⟨hs, hc, hj⟩ := h
  obtain ⟨⟨hans, hsound⟩, hkept⟩ := answers_string hs hc k
  exact ⟨hans, fun s he => ⟨hsound s he, (hkept s he).1, (hkept s he).2.trans hj⟩⟩

theorem ofLoader_take (h : c.OfLoader) (k : ℕ) :
    (c.take k).map (fun s => (s.1, s.2.rest)) = answerTake k c.rest ∧ ∀ s, c.take k = some s → s.2.OfLoader := by
  obtain ⟨hs, hc⟩ := h
  obtain ⟨chunks, hchunks⟩ := Option.ne_none_iff_exists'.1 hc
  obtain ⟨⟨hans, hsound⟩, hkept⟩ := answers_loader hs hchunks k
  exact ⟨hans, fun s he => ⟨hsound s he, hkept s he⟩⟩

theorem ofString_init (str : List UInt8) : (ofString str).OfString str.length ∧ (ofString str).rest = str := by
  refine ⟨⟨⟨le_rfl, Nat.le_add_left 1 _, rfl⟩, rfl, rfl⟩, ?_⟩
  exact List.append_nil str

theorem ofLoader_init (chunks : List (List UInt8)) :
    (ofLoader chunks).OfLoader ∧ (ofLoader chunks).rest = chunks.flatten :=
  ⟨⟨⟨le_rfl, le_rfl, rfl⟩, Option.some_ne_none _⟩, rfl⟩

theorem OfString.rest_length {j : ℕ} (h : c.OfString j) : c.rest.length = j + 1 - c.i := by
  rw [h.1.rest_string h.2.1, h.2.2]

/-- The call under `pcall`: the cursor has a byte afterwards, if there is one. -/
theorem OfLoader.underflow (h : c.OfLoader) (hi : c.j < c.i) :
    (c.rest ≠ [] → (c.underflow c.i).1.OfLoader ∧ (c.underflow c.i).1.rest = c.rest ∧
      (c.underflow c.i).1.i ≤ (c.underflow c.i).1.j) ∧
    (c.rest = [] → (c.underflow c.i).1.j < (c.underflow c.i).1.i) := by
  obtain ⟨hs, hc⟩ := h
  obtain ⟨chunks, hchunks⟩ := Option.ne_none_iff_exists'.1 hc
  have hnil : c.s.drop (c.i - 1) = [] := by
    have hlen := hs.len
    exact List.drop_eq_nil_of_le (by omega)
  have hrest : c.rest = c.s.drop (c.i - 1) ++ chunks.flatten := by
    rw [rest, hchunks]
    rfl
  obtain ⟨henough, hmissing⟩ := load_spec chunks
      (c := { c with s := c.s.drop (c.i - 1), i := 1, j := 0, chunks := some chunks })
    1 rfl (.inr ⟨Nat.one_pos, by rw [hnil]; exact Nat.one_pos⟩)
  dsimp only at henough hmissing
  rw [← hrest] at henough hmissing
  have he : c.i - c.i + 1 = 1 := by omega
  rw [underflow_loader hchunks, he]
  refine ⟨?_, ?_⟩
  · intro hne
    obtain ⟨c', hload, hsound, hi', hrest', hj, hchunks'⟩ := henough (List.length_pos_iff.2 hne)
    rw [hload]
    exact ⟨⟨hsound, hchunks'⟩, hrest', by dsimp only; omega⟩
  · intro hempty
    obtain ⟨-, hi', hj⟩ := hmissing (by rw [hempty]; exact Nat.one_pos)
    omega

end MpCursor

/-! ## Values from a stream -/

/-- What `unpackers['any']` returns or raises, and the bytes behind. -/
def decodeBytes (widen : UInt32 → UInt64) (bs : List UInt8) : Except MpError (MpValue × List UInt8) :=
  match readValue widen bs with
  | none => .error .missingBytes
  | some (.error e, _) => .error e
  | some (.ok v, r) => .ok (v, r)

theorem decodeBytes_ne_unfinished : decodeBytes widen bs ≠ .error .unfinished := by
  unfold decodeBytes
  split
  next => exact fun e => by cases e
  next e r h => exact fun he => readValue_ne_unfinished (Except.error.inj he ▸ h)
  next => exact fun e => by cases e

theorem decodeBytes_length (h : decodeBytes widen bs = .ok (v, r)) : r.length < bs.length := by
  unfold decodeBytes at h
  split at h
  next => cases h
  next => cases h
  next v' r' hread =>
    rw [Except.ok.injEq, Prod.mk.injEq] at h
    exact h.2 ▸ readValue_length hread

variable (widen) in
/-- **Decoding at a cursor is decoding its rest.** -/
theorem decodeAt_eq {ok : MpCursor → Prop} {c : MpCursor}
    (htake : ∀ k c, ok c → (c.take k).map (fun s => (s.1, s.2.rest)) = answerTake k c.rest ∧
      ∀ s, c.take k = some s → ok s.2) (hc : ok c) (hn : c.rest.length ≤ n) :
    (decodeAt widen n c).map (fun s => (s.1, s.2.rest)) = decodeBytes widen c.rest ∧
      ∀ s, decodeAt widen n c = .ok s → ok s.2 := by
  obtain ⟨hview, hok⟩ := run_view htake (unpackAny widen (n + 1)) hc
  rw [read_any_eq hn] at hview
  rw [decodeBytes, ← hview, decodeAt]
  cases hrun : (unpackAny widen (n + 1)).run MpCursor.take c with
  | none => exact ⟨rfl, fun s hs => by cases hs⟩
  | some s =>
    obtain ⟨e | v, c'⟩ := s
    · exact ⟨rfl, fun s hs => by cases hs⟩
    · refine ⟨rfl, ?_⟩
      intro s hs
      rw [← Except.ok.inj hs]
      exact hok _ hrun

/-- The values in a list of bytes, for at most `n` of them. -/
def readAll (widen : UInt32 → UInt64) : ℕ → List UInt8 → List MpValue × Option MpError
  | 0, _ => ([], some .unfinished)
  | n + 1, bs =>
    if bs = [] then ([], none)
    else match decodeBytes widen bs with
      | .error e => ([], some e)
      | .ok (v, r) => (v :: (readAll widen n r).1, (readAll widen n r).2)

theorem readAll_ne_unfinished (h : bs.length < n) : (readAll widen n bs).2 ≠ some .unfinished := by
  induction n generalizing bs with
  | zero => exact absurd h (Nat.not_lt_zero _)
  | succ n ih =>
    rw [readAll]
    split
    · exact fun e => by cases e
    · split
      next e he => exact fun h => decodeBytes_ne_unfinished (he.trans (congrArg _ (Option.some.inj h)))
      next v r he =>
        have hlt := decodeBytes_length he
        exact ih (by omega)

variable (widen) in
/-- **An iteration reads what the cursor stands for**: `next` ends where the rest is empty, and
decodes it otherwise. -/
theorem iterate_eq {β : Type} (next : MpCursor → Option (Except MpError (β × MpCursor))) (value : β → MpValue)
    (ok : MpCursor → Prop) {N : ℕ}
    (hnil : ∀ c, ok c → c.rest = [] → next c = none)
    (hnext : ∀ c, ok c → c.rest ≠ [] → c.rest.length ≤ N → ∃ x, next c = some x ∧
      x.map (fun s => (value s.1, s.2.rest)) = decodeBytes widen c.rest ∧ ∀ s, x = .ok s → ok s.2)
    {c : MpCursor} (hc : ok c) (hN : c.rest.length ≤ N) (n : ℕ) :
    ((iterate next n c).1.map value, (iterate next n c).2) = readAll widen n c.rest := by
  induction n generalizing c with
  | zero => rfl
  | succ n ih =>
    rw [iterate, readAll]
    by_cases hrest : c.rest = []
    · rw [hnil c hc hrest, if_pos hrest]
      rfl
    · obtain ⟨x, hx, hmap, hok⟩ := hnext c hc hrest hN
      rw [hx, if_neg hrest, ← hmap]
      cases x with
      | error e => rfl
      | ok s =>
        have hlt := decodeBytes_length (r := s.2.rest) (v := value s.1) hmap.symm
        have htail := ih (hok s rfl) (by omega)
        show (value s.1 :: (iterate next n s.2).1.map value, (iterate next n s.2).2) =
          (value s.1 :: (readAll widen n s.2.rest).1, (readAll widen n s.2.rest).2)
        rw [← htail]

theorem mpUnpackerString_eq (src : List UInt8) : ((mpUnpackerString widen src).1.map Prod.snd,
    (mpUnpackerString widen src).2) = readAll widen (src.length + 1) src := by
  obtain ⟨hok, hrest⟩ := MpCursor.ofString_init src
  have h := iterate_eq widen (fun c => if c.i ≤ c.j then
      some ((decodeAt widen src.length c).map fun r => ((c.i, r.1), r.2)) else none)
    Prod.snd (MpCursor.OfString src.length) (N := src.length) ?_ ?_ hok (by rw [hrest]) (src.length + 1)
  · rw [hrest] at h
    exact h
  · intro c hc he
    have hlen := hc.rest_length
    rw [he, List.length_nil, ← hc.2.2] at hlen
    exact if_neg (by omega)
  · intro c hc he hN
    have hlen := hc.rest_length
    have hpos := List.length_pos_iff.2 he
    rw [← hc.2.2] at hlen
    obtain ⟨hmap, hok⟩ := decodeAt_eq widen (fun k c hc => MpCursor.ofString_take hc k) hc hN
    refine ⟨_, if_pos (by omega), ?_, ?_⟩
    · rw [← hmap]
      cases decodeAt widen src.length c <;> rfl
    · intro s hs
      cases hd : decodeAt widen src.length c with
      | error e => rw [hd] at hs; cases hs
      | ok r =>
        rw [hd] at hs
        rw [← Except.ok.inj hs]
        exact hok r hd

theorem mpUnpackerLoader_eq (chunks : List (List UInt8)) :
    mpUnpackerLoader widen chunks = readAll widen (chunks.flatten.length + 1) chunks.flatten := by
  obtain ⟨hok, hrest⟩ := MpCursor.ofLoader_init chunks
  have h := iterate_eq widen (fun c =>
      let c := if c.i > c.j then (c.underflow c.i).1 else c
      if c.i ≤ c.j then some (decodeAt widen chunks.flatten.length c) else none)
    id MpCursor.OfLoader (N := chunks.flatten.length) ?_ ?_ hok (by rw [hrest])
    (chunks.flatten.length + 1)
  · rw [hrest, List.map_id] at h
    exact h
  · intro c hc he
    have hlt : c.j < c.i := by
      by_contra hle
      have hone := hc.1.one_le
      have hlen := hc.1.len
      have hdrop := congrArg List.length (List.append_eq_nil_iff.1 he).1
      rw [List.length_drop, List.length_nil] at hdrop
      omega
    dsimp only
    rw [if_pos hlt, if_neg (not_le.2 ((hc.underflow hlt).2 he))]
  · intro c hc he hN
    -- the cursor after the call under `pcall`
    obtain ⟨c', hc', hrest', hle, hif⟩ : ∃ c' : MpCursor, c'.OfLoader ∧ c'.rest = c.rest ∧ c'.i ≤ c'.j ∧
        (if c.i > c.j then (c.underflow c.i).1 else c) = c' := by
      by_cases hlt : c.j < c.i
      · obtain ⟨hok, hr, hle⟩ := (hc.underflow hlt).1 he
        exact ⟨_, hok, hr, hle, if_pos hlt⟩
      · exact ⟨c, hc, rfl, not_lt.1 hlt, if_neg hlt⟩
    obtain ⟨hmap, hok⟩ := decodeAt_eq widen (fun k c hc => MpCursor.ofLoader_take hc k) hc'
      (hrest' ▸ hN)
    dsimp only
    rw [hif, if_pos hle, ← hrest']
    exact ⟨_, rfl, hmap, hok⟩

end Qsf
