import Qsf.Proof.NodeRegistry
import Qsf.Spec.NodeRecord

/-!
# What the thread of a node reads

An array that its string fills up has no NUL, and is read on into the next one. Behind
`args` comes the tag, which has no NUL either once `init_node` has set it. Only the length of
the name is checked, and only from above: `launches_iff` says what `qsf_create_node` leaves
to its callers.
-/

set_option autoImplicit false

namespace Qsf

variable {n : ℕ} {str name path args : CString} {mem pre rest : List UInt8} {s : ℕ} {r : ℤ}

/-! ## Reading a C string -/

theorem readCString_append (pre mem : List UInt8) :
    readCString (pre ++ mem) pre.length = readCString mem 0 := by
  unfold readCString
  rw [List.drop_left, List.drop_zero]

/-- An array that is longer than its string. -/
theorem readCString_short (h : str.length < n) (rest : List UInt8) :
    readCString (strncpy str n ++ rest) 0 = some str.bytes := by
  obtain ⟨hmem, hcstr⟩ := strncpy_short h
  unfold readCString
  rw [List.drop_zero, if_pos (List.mem_append_left _ hmem), cstr_append_of_mem hmem, hcstr]

/-- **An array that its string fills up** is read on into what lies behind it. -/
theorem readCString_long (h : n ≤ str.length) (rest : List UInt8) :
    readCString (strncpy str n ++ rest) 0 = (readCString rest 0).map (str.bytes.take n ++ ·) := by
  have hout : 0 ∉ str.bytes.take n := fun hin => str.noNul (List.mem_of_mem_take hin)
  have hmem : 0 ∈ str.bytes.take n ++ rest ↔ 0 ∈ rest := by
    rw [List.mem_append]
    exact ⟨fun hin => hin.resolve_left hout, .inr⟩
  unfold readCString
  rw [strncpy_long h, List.drop_zero, List.drop_zero, cstr_append_of_notMem hout]
  by_cases hrest : 0 ∈ rest
  · rw [if_pos (hmem.2 hrest), if_pos hrest, Option.map_some]
  · rw [if_neg fun hin => hrest (hmem.1 hin), if_neg hrest, Option.map_none]

/-! ## Reading a record -/

namespace NodeContext

theorem newNode_readName (path args : CString) (hname : name.length < MAX_ID_LENGTH) (tag : UInt32) :
    (newNode name path args).readName tag = some name.bytes := by
  unfold QsfNode.readName QsfNode.memory
  rw [List.append_assoc, List.append_assoc]
  exact readCString_short hname _

/-- `s->args` begins behind the two other arrays. -/
theorem newNode_readArgs (name path args : CString) (tag : UInt32) :
    (newNode name path args).readArgs tag =
      readCString (strncpy args MAX_ARG_LENGTH ++ leBytes 4 tag.toNat) 0 := by
  have hlen : (strncpy name MAX_ID_LENGTH ++ strncpy path MAX_PATH).length = MAX_ID_LENGTH + MAX_PATH := by
    rw [List.length_append, length_strncpy, length_strncpy]
  unfold QsfNode.readArgs QsfNode.memory newNode
  rw [List.append_assoc, ← hlen]
  exact readCString_append ..

/-- `s->path` begins behind the name. -/
theorem newNode_readPath (name path args : CString) (tag : UInt32) :
    (newNode name path args).readPath tag = readCString (strncpy path MAX_PATH ++
      (strncpy args MAX_ARG_LENGTH ++ leBytes 4 tag.toNat)) 0 := by
  have hlen : (strncpy name MAX_ID_LENGTH).length = MAX_ID_LENGTH := length_strncpy ..
  unfold QsfNode.readPath QsfNode.memory newNode
  rw [List.append_assoc, List.append_assoc]
  have happ := readCString_append (strncpy name MAX_ID_LENGTH)
    (strncpy path MAX_PATH ++ (strncpy args MAX_ARG_LENGTH ++ leBytes 4 tag.toNat))
  rw [hlen] at happ
  exact happ

/-- Arguments that fill their array up are read past the end of the record: the tag of a node
that runs has no NUL. -/
theorem readArgs_long (name path : CString) (h : MAX_ARG_LENGTH ≤ args.length) :
    (newNode name path args).readArgs QSF_NODE_TAG_VALUE_GOOD = none := by
  have htag : readCString (leBytes 4 QSF_NODE_TAG_VALUE_GOOD.toNat) 0 = none := by decide
  rw [newNode_readArgs, readCString_long h, htag, Option.map_none]

/-- **The arguments are read back exactly when their NUL fits.** -/
theorem readArgs_iff (name path args : CString) :
    (newNode name path args).readArgs QSF_NODE_TAG_VALUE_GOOD = some args.bytes ↔
      args.length < MAX_ARG_LENGTH := by
  by_cases h : args.length < MAX_ARG_LENGTH
  · rw [newNode_readArgs, readCString_short h]
    exact ⟨fun _ => h, fun _ => rfl⟩
  · rw [readArgs_long name path (not_lt.1 h)]
    exact ⟨nofun, fun hlt => absurd hlt h⟩

/-- **The path is read back exactly when its NUL fits**, or when the arguments happen to be
what was cut off. -/
theorem readPath_iff (name path args : CString) :
    (newNode name path args).readPath QSF_NODE_TAG_VALUE_GOOD = some path.bytes ↔
      path.length < MAX_PATH ∨ args.length < MAX_ARG_LENGTH ∧ path.bytes.drop MAX_PATH = args.bytes := by
  rw [newNode_readPath]
  by_cases h : path.length < MAX_PATH
  · rw [readCString_short h]
    exact ⟨fun _ => .inl h, fun _ => rfl⟩
  · rw [readCString_long (not_lt.1 h), ← newNode_readArgs name path]
    by_cases hargs : args.length < MAX_ARG_LENGTH
    · rw [(readArgs_iff name path args).2 hargs, Option.map_some, Option.some.injEq]
      -- the array holds the first part of the path
      have hsplit : path.bytes.take MAX_PATH ++ args.bytes = path.bytes ↔ path.bytes.drop MAX_PATH = args.bytes := by
        nth_rewrite 2 [← List.take_append_drop MAX_PATH path.bytes]
        rw [List.append_cancel_left_eq, eq_comm]
      exact hsplit.trans ⟨fun heq => .inr ⟨hargs, heq⟩, fun hor => (hor.resolve_left h).2⟩
    · rw [readArgs_long name path (not_lt.1 hargs), Option.map_none]
      exact ⟨nofun, fun hor => absurd (hor.resolve_left h).1 hargs⟩

end NodeContext

/-! ## The dealer -/

/-- **`qsf_create_dealer` aborts** exactly when the identity is not a legal one, or when a call
that does not depend on it fails. -/
theorem qsfCreateDealer_isSome (env : DealerEnv) (identity : List UInt8) :
    (qsfCreateDealer env identity).isSome ↔
      (1 ≤ identity.length ∧ identity.length ≤ 255) ∧ env.socket.isSome ∧ env.connect = true := by
  unfold qsfCreateDealer
  cases env.socket with
  | none => simp
  | some cells =>
    by_cases hid : 1 ≤ identity.length ∧ identity.length ≤ 255
    · have hset : zmqSetsockopt cells .identity identity = some (Function.update cells .identity identity) :=
        if_pos hid
      simp only [Option.bind_eq_bind, Option.bind_some, hset]
      cases env.connect <;> simp [zmqSetsockopt, ZmqOption.kind, OptionKind.Sets, hid]
    · have hset : zmqSetsockopt cells .identity identity = none := if_neg hid
      simp only [Option.bind_eq_bind, Option.bind_some, hset, Option.bind_none]
      simp [hid]

/-! ## A node that was launched -/

/-- **The node runs with exactly the strings it was given**: they are read back from its
record, and the dealer gets an identity that it can have. -/
structure QsfNode.RunsWith (nd : QsfNode) (name path args : CString) : Prop where
  readsName : nd.readName 0 = some name.bytes
  readsPath : nd.readPath QSF_NODE_TAG_VALUE_GOOD = some path.bytes
  readsArgs : nd.readArgs QSF_NODE_TAG_VALUE_GOOD = some args.bytes
  identity : 1 ≤ name.length ∧ name.length ≤ 255
  /-- Where ZeroMQ works, the thread does not abort. -/
  thread : ∀ env load, env.socket.isSome → env.connect = true →
    nodeThreadCallback env true load nd =
      some (if load path.bytes then .ran name.bytes path.bytes args.bytes
        else .notLoaded name.bytes path.bytes)

/-- The strings fit into their arrays, with a NUL each. -/
def Fits (name path args : CString) : Prop :=
  name.length < MAX_ID_LENGTH ∧ path.length < MAX_PATH ∧ args.length < MAX_ARG_LENGTH

/-- The link of a record is not read. -/
theorem QsfNode.RunsWith.of_content {nd : QsfNode} (h : nd.content.RunsWith name path args) :
    nd.RunsWith name path args :=
  ⟨h.readsName, h.readsPath, h.readsArgs, h.identity, h.thread⟩

theorem NodeContext.newNode_runsWith (h : Fits name path args) (hne : 1 ≤ name.length) :
    (newNode name path args).RunsWith name path args := by
  obtain ⟨hname, hpath, hargs⟩ := h
  have hname' := newNode_readName path args hname 0
  have hpath' := (readPath_iff name path args).2 (.inl hpath)
  have hargs' := (readArgs_iff name path args).2 hargs
  have hid : 1 ≤ name.length ∧ name.length ≤ 255 := by
    unfold MAX_ID_LENGTH at hname
    exact ⟨hne, by omega⟩
  refine ⟨hname', hpath', hargs', hid, ?_⟩
  intro env load hsocket hconnect
  obtain ⟨dealer, hdealer⟩ := Option.isSome_iff_exists.1
    ((qsfCreateDealer_isSome env name.bytes).2 ⟨hid, hsocket, hconnect⟩)
  unfold nodeThreadCallback
  simp only [Bool.not_true, Bool.false_eq_true, if_false, hname', hdealer, hpath', hargs',
    Option.bind_eq_bind, Option.bind_some]
  cases load path.bytes <;> rfl

namespace NodeWorld

variable {w : NodeWorld} {e : NodeEvent}

/-- `qsf_create_node` has a reason to refuse, or no thread is created. -/
def Refused (w : NodeWorld) (name : CString) (r : ℤ) : Prop :=
  MAX_ID_LENGTH ≤ name.length ∨ name = .sys ∨ name ∈ w.threads.map Prod.snd ∨ r < 0

/-- **What is launched runs as it was told to**: a node that is registered runs with the
strings that were given for it, whatever other nodes come and go before its thread reads
them, and strings that do not fit are refused. -/
def Launches (w : NodeWorld) (name path args : CString) (s : ℕ) (r : ℤ) : Prop :=
  ∃ ret ctx, w.ctx.qsfCreateNode name path args s r = some (ret, ctx) ∧
    (ret = 0 → ∀ es, nodeRegistry.Runs (w.step (.create name path args s r)) es → .cleanup s ∉ es →
      ∃ nd, (nodeRegistry.exec (w.step (.create name path args s r)) es).ctx.heap s = some nd ∧
        nd.RunsWith name path args) ∧
    (¬ Fits name path args → ret ≠ 0 ∧ ctx = w.ctx)

/-- The other events leave the record of a node alone. -/
theorem content_step (h : w.Inv) (he : w.enabled e) (hne : e ≠ .cleanup s)
    (hs : s ∈ w.threads.map Prod.fst) :
    s ∈ (w.step e).threads.map Prod.fst ∧
      ((w.step e).ctx.heap s).map QsfNode.content = (w.ctx.heap s).map QsfNode.content := by
  cases e with
  | create name path args a r =>
    obtain ⟨ha, hr⟩ := he
    have has : s ≠ a := by
      rintro rfl
      exact h.lists.fresh ha hs
    rcases NodeContext.qsfCreateNode_cases name h.lists ha path args r with
      ⟨-, hc⟩ | ⟨-, hc⟩ | ⟨-, -, -, hc⟩ | ⟨-, -, -, ⟨hr', hc⟩ | ⟨hr', ctx', hc, -, -, hkeep⟩⟩
    · simp only [step, hc]; exact ⟨hs, trivial⟩
    · simp only [step, hc]; exact ⟨hs, trivial⟩
    · simp only [step, hc]; exact ⟨hs, trivial⟩
    · simp only [step, hc, if_neg hr'.ne]
      exact ⟨hs, trivial⟩
    · have hr0 : r = 0 := le_antisymm hr hr'
      simp only [step, hc, if_pos hr0, List.map_append, List.mem_append]
      exact ⟨.inl hs, hkeep s has⟩
  | cleanup a =>
    have has : s ≠ a := fun heq => hne (by rw [heq])
    obtain ⟨ctx', hc, -, -, hkeep⟩ := NodeContext.remove_lists h.lists he
    obtain ⟨p, hp, rfl⟩ := List.mem_map.1 hs
    simp only [step, NodeContext.cleanupNode, hc]
    refine ⟨List.mem_map_of_mem (List.mem_filter.2 ⟨hp, ?_⟩), hkeep _ has⟩
    simpa using has

/-- **The record of a node stays** until its thread cleans up. -/
theorem content_run {es : List NodeEvent} (h : w.Inv) (hs : s ∈ w.threads.map Prod.fst)
    (hr : nodeRegistry.Runs w es) (hes : .cleanup s ∉ es) :
    ((nodeRegistry.exec w es).ctx.heap s).map QsfNode.content = (w.ctx.heap s).map QsfNode.content := by
  induction es generalizing w with
  | nil => rfl
  | cons e es ih =>
    obtain ⟨he, hr⟩ := hr
    rw [List.mem_cons, not_or] at hes
    obtain ⟨hs', hkeep⟩ := content_step h he (fun heq => hes.1 heq.symm) hs
    exact (ih (inv_step h he) hs' hr hes.2).trans hkeep

/-- A refusal changes nothing. -/
theorem refused (h : w.Inv) (he : w.enabled (.create name path args s r)) (hre : w.Refused name r) :
    ∃ ret, ret ≠ 0 ∧ w.ctx.qsfCreateNode name path args s r = some (ret, w.ctx) := by
  obtain ⟨hs, -⟩ := he
  rcases NodeContext.qsfCreateNode_cases name h.lists hs path args r with
    ⟨-, hc⟩ | ⟨-, hc⟩ | ⟨-, -, -, hc⟩ | ⟨hlen, hsys, hin, ⟨hr', hc⟩ | ⟨hr', -⟩⟩
  · exact ⟨1, by norm_num, hc⟩
  · exact ⟨2, by norm_num, hc⟩
  · exact ⟨3, by norm_num, hc⟩
  · exact ⟨r, hr'.ne, hc⟩
  · rcases hre with hre | hre | hre | hre
    · exact absurd hlen (not_lt.2 hre)
    · exact absurd hre hsys
    · exact absurd hre hin
    · exact absurd hre (not_lt.2 hr')

/-- **A node that is not refused** is registered, with the three arrays filled. -/
theorem registered (h : w.Inv) (he : w.enabled (.create name path args s r))
    (hre : ¬ w.Refused name r) :
    ∃ ctx, w.ctx.qsfCreateNode name path args s r = some (0, ctx) ∧
      s ∈ (w.step (.create name path args s r)).threads.map Prod.fst ∧
      ((w.step (.create name path args s r)).ctx.heap s).map QsfNode.content =
        some (NodeContext.newNode name path args) := by
  obtain ⟨hs, hr⟩ := he
  have hr0 : r = 0 := le_antisymm hr (not_lt.1 fun hlt => hre (.inr (.inr (.inr hlt))))
  rcases NodeContext.qsfCreateNode_cases name h.lists hs path args r with
    ⟨hlen, -⟩ | ⟨hsys, -⟩ | ⟨-, -, hin, -⟩ | ⟨-, -, -, ⟨hr', -⟩ | ⟨-, ctx, hc, -, hself, -⟩⟩
  · exact absurd (.inl hlen) hre
  · exact absurd (.inr (.inl hsys)) hre
  · exact absurd (.inr (.inr (.inl hin))) hre
  · exact absurd (.inr (.inr (.inr hr'))) hre
  · rw [hr0] at hc
    refine ⟨ctx, hr0 ▸ hc, ?_⟩
    simp only [step, hr0, hc, if_true, List.map_append, List.mem_append]
    exact ⟨.inr List.mem_cons_self, hself⟩

/-- Its thread may read the record at once. -/
theorem Launches.runsWith (h : w.Launches name path args s r) (hw : w.Inv)
    (he : w.enabled (.create name path args s r)) (hre : ¬ w.Refused name r) :
    (NodeContext.newNode name path args).RunsWith name path args ∧ Fits name path args := by
  obtain ⟨ctx, hc, -, hself⟩ := registered hw he hre
  obtain ⟨ret, ctx', hc', hrun, hfit⟩ := h
  rw [hc, Option.some.injEq, Prod.mk.injEq] at hc'
  obtain ⟨rfl, rfl⟩ := hc'
  obtain ⟨nd, hnd, hruns⟩ := hrun rfl [] trivial List.not_mem_nil
  change (w.step (.create name path args s r)).ctx.heap s = some nd at hnd
  rw [hnd, Option.map_some, Option.some.injEq] at hself
  refine ⟨?_, by_contra fun hnot => (hfit hnot).1 rfl⟩
  rw [← hself]
  exact ⟨hruns.readsName, hruns.readsPath, hruns.readsArgs, hruns.identity, hruns.thread⟩

/-- **Exactly when a launch does what it says**: it is refused, or the name is not empty and
path and arguments are shorter than their arrays, which nothing checks. -/
theorem launches_iff (h : nodeRegistry.Reachable w) (he : w.enabled (.create name path args s r)) :
    w.Launches name path args s r ↔
      w.Refused name r ∨
        1 ≤ name.length ∧ path.length < MAX_PATH ∧ args.length < MAX_ARG_LENGTH := by
  have hinv := inv_reachable h
  by_cases hre : w.Refused name r
  · obtain ⟨ret, hret, hc⟩ := refused hinv he hre
    exact ⟨fun _ => .inl hre, fun _ => ⟨ret, w.ctx, hc, fun h0 => absurd h0 hret, fun _ => ⟨hret, rfl⟩⟩⟩
  obtain ⟨ctx, hc, hs, hself⟩ := registered hinv he hre
  have hname : name.length < MAX_ID_LENGTH := not_le.1 fun hle => hre (.inl hle)
  constructor
  · intro hl
    obtain ⟨hruns, hfits⟩ := hl.runsWith hinv he hre
    exact .inr ⟨hruns.identity.1, hfits.2⟩
  · intro hor
    obtain ⟨hne, hfits⟩ := hor.resolve_left hre
    refine ⟨0, ctx, hc, ?_, fun hnot => absurd ⟨hname, hfits⟩ hnot⟩
    intro _ es hr hes
    have hkeep := content_run (inv_step hinv he) hs hr hes
    rw [hself] at hkeep
    obtain ⟨nd, hnd, hcontent⟩ := Option.map_eq_some_iff.1 hkeep
    refine ⟨nd, hnd, .of_content ?_⟩
    rw [hcontent]
    exact NodeContext.newNode_runsWith ⟨hname, hfits⟩ hne

/-- Three strings that fit. -/
theorem launches_one :
    let a : CString := ⟨[97], by decide⟩
    NodeWorld.init.Launches a a a 10 0 := by
  intro a
  exact (launches_iff (.start rfl) ⟨rfl, le_refl _⟩).2 (.inr (by decide))

/-- **A path of 260 bytes is read with the arguments behind it**, and an empty name is
registered although no dealer can have it. -/
theorem launches_not :
    let a : CString := ⟨[97], by decide⟩
    let long : CString := ⟨List.replicate 260 112, fun h => absurd (List.eq_of_mem_replicate h) (by decide)⟩
    let empty : CString := ⟨[], by decide⟩
    nodeRegistry.Reachable NodeWorld.init ∧
      (NodeWorld.init.enabled (.create a long a 10 0) ∧ ¬ NodeWorld.init.Launches a long a 10 0) ∧
      NodeWorld.init.enabled (.create empty a a 10 0) ∧ ¬ NodeWorld.init.Launches empty a a 10 0 := by
  intro a long empty
  have hnot : ∀ name : CString, name.length < MAX_ID_LENGTH → name ≠ .sys → ¬ NodeWorld.init.Refused name 0 := by
    rintro name hlen hsys (hre | hre | hre | hre)
    · exact absurd hlen (not_lt.2 hre)
    · exact hsys hre
    · exact absurd hre List.not_mem_nil
    · exact absurd hre (lt_irrefl 0)
  have ha : ¬ NodeWorld.init.Refused a 0 := hnot a (by decide) (by decide)
  have hempty : ¬ NodeWorld.init.Refused empty 0 := hnot empty (by decide) (by decide)
  refine ⟨.start rfl, ⟨⟨rfl, le_refl _⟩, ?_⟩, ⟨rfl, le_refl _⟩, ?_⟩
  · intro hl
    -- the path is not what the thread reads
    have hpath := (hl.runsWith inv_init ⟨rfl, le_refl _⟩ ha).1.readsPath
    rcases (NodeContext.readPath_iff a long a).1 hpath with hlt | ⟨-, hdrop⟩
    · have hlen : long.length = 260 := List.length_replicate
      exact absurd hlt (by rw [hlen]; decide)
    · have hlen := congrArg List.length hdrop
      rw [List.length_drop, List.length_replicate] at hlen
      exact absurd hlen (by decide)
  · intro hl
    -- the name is not an identity
    have hid := (hl.runsWith inv_init ⟨rfl, le_refl _⟩ hempty).1.identity
    simp [empty, CString.length] at hid

end NodeWorld

end Qsf
