import Qsf.Spec.NodeRegistry

/-!
# The registry of nodes: list, count and names

`Lists ctx ts`: the list in memory consists of the nodes `ts`, in order, each under its
name, and the names are different. Given this, each loop of the registry ends where it
should (`findLoop_eq`, `lastLoop_eq`, `removeLoop_eq`), a removal by name removes the very
node it was given (`remove_lists`), and an append that is undone leaves no trace
(`create_remove`).
-/

set_option autoImplicit false

namespace Qsf

/-- The node without its link. -/
def QsfNode.content (s : QsfNode) : QsfNode := { s with next := none }

theorem name_of_content {x y : Option QsfNode} (h : x.map QsfNode.content = y.map QsfNode.content) :
    x.map QsfNode.name = y.map QsfNode.name := by
  have hname := congrArg (Option.map QsfNode.name) h
  rw [Option.map_map, Option.map_map] at hname
  exact hname

namespace NodeContext

variable {ctx : NodeContext} {l : Link ℕ} {q q' : Option ℕ} {a b s : ℕ}

/-! ## Writing a link -/

/-- `*pph = q`, where there is memory. -/
def put (ctx : NodeContext) (l : Link ℕ) (q : Option ℕ) : NodeContext :=
  match l with
  | .head => { ctx with list := q }
  | .next a => { ctx with
      heap := Function.update ctx.heap a ((ctx.heap a).map fun s => { s with next := q }) }

/-- The link lies in memory that is there. -/
def Valid (ctx : NodeContext) (l : Link ℕ) : Prop := ∀ a, l = .next a → ∃ nd, ctx.heap a = some nd

theorem store_eq (h : ctx.Valid l) : ctx.store l q = some (ctx.put l q) := by
  cases l with
  | head => rfl
  | next a =>
    obtain ⟨nd, hnd⟩ := h a rfl
    simp only [store, put, hnd, Option.map_some]

theorem load_eq (h : ctx.Valid l) : ctx.load l = some (ctx.links.load l) := by
  cases l with
  | head => rfl
  | next a =>
    obtain ⟨nd, hnd⟩ := h a rfl
    simp only [load, links, Links.load, hnd, Option.map_some, Option.bind_some]

theorem put_links (h : ctx.Valid l) : (ctx.put l q).links = ctx.links.store l q := by
  cases l with
  | head => rfl
  | next a =>
    obtain ⟨nd, hnd⟩ := h a rfl
    simp only [put, links, Links.store, Links.mk.injEq, true_and]
    funext b
    by_cases hb : b = a
    · subst hb
      simp [hnd]
    · simp [Function.update_of_ne hb]

/-- Writing a link changes nothing else. -/
theorem put_content (ctx : NodeContext) (l : Link ℕ) (q : Option ℕ) (b : ℕ) :
    ((ctx.put l q).heap b).map QsfNode.content = (ctx.heap b).map QsfNode.content := by
  cases l with
  | head => rfl
  | next a =>
    by_cases hb : b = a
    · subst hb
      simp only [put, Function.update_self, Option.map_map]
      rfl
    · simp only [put, Function.update_of_ne hb]

theorem put_name (ctx : NodeContext) (l : Link ℕ) (q : Option ℕ) (b : ℕ) :
    ((ctx.put l q).heap b).map QsfNode.name = (ctx.heap b).map QsfNode.name :=
  name_of_content (put_content ctx l q b)

theorem put_put : (ctx.put l q).put l q' = ctx.put l q' := by
  cases l with
  | head => rfl
  | next a =>
    simp only [put, Function.update_self, Function.update_idem, Option.map_map]
    rfl

theorem put_load (h : ctx.load l = some q) : ctx.put l q = ctx := by
  cases l with
  | head =>
    obtain rfl : ctx.list = q := Option.some.inj h
    rfl
  | next a =>
    obtain ⟨nd, hnd, rfl⟩ := Option.map_eq_some_iff.1 h
    have hheap : Function.update ctx.heap a (some nd) = ctx.heap := by
      rw [← hnd, Function.update_eq_self]
    simp only [put, hnd, Option.map_some, hheap]

/-! ## The nodes in the list -/

/-- **The list in memory is `ts`**: the addresses in order, with different names. -/
structure Lists (ctx : NodeContext) (ts : List (ℕ × CString)) : Prop where
  chain : ctx.links.Holds (ts.map Prod.fst)
  nodup : (ts.map Prod.fst).Nodup
  node : ∀ p ∈ ts, (ctx.heap p.1).map QsfNode.name = some (strncpy p.2 MAX_ID_LENGTH)
  valid : ∀ p ∈ ts, p.2.length < MAX_ID_LENGTH ∧ p.2 ≠ .sys
  names : (ts.map Prod.snd).Nodup
  count : ctx.count = ts.length

variable {ts pre post rest : List (ℕ × CString)} {name : CString} {p : ℕ × CString}

theorem Lists.heap (h : ctx.Lists ts) (hp : p ∈ ts) :
    ∃ nd, ctx.heap p.1 = some nd ∧ nd.name = strncpy p.2 MAX_ID_LENGTH :=
  Option.map_eq_some_iff.1 (h.node p hp)

/-- The link behind a part of the list is in memory. -/
theorem Lists.link (h : ctx.Lists (pre ++ rest)) : ctx.Valid (linkAfter (pre.map Prod.fst)) := by
  intro a ha
  rcases List.eq_nil_or_concat pre with rfl | ⟨xs, p, rfl⟩
  · cases ha
  · rw [List.concat_eq_append, List.map_append, List.map_singleton, Links.linkAfter_snoc] at ha
    obtain rfl : p.1 = a := Link.next.inj ha
    obtain ⟨nd, hnd, -⟩ := h.heap (p := p) (by simp)
    exact ⟨nd, hnd⟩

/-- What is read through it. -/
theorem Lists.load (pre : List (ℕ × CString)) (h : ctx.Lists (pre ++ rest)) :
    ctx.load (linkAfter (pre.map Prod.fst)) = some (rest.map Prod.fst).head? := by
  have hchain := h.chain
  rw [List.map_append] at hchain
  rw [load_eq h.link, hchain.load]

/-- The `next` pointer of a node of the list. -/
theorem Lists.next (h : ctx.Lists (pre ++ p :: rest)) {nd : QsfNode} (hnd : ctx.heap p.1 = some nd) :
    nd.next = (rest.map Prod.fst).head? := by
  have h' : ctx.Lists ((pre ++ [p]) ++ rest) := by simpa using h
  have hload := h'.load
  rw [List.map_append, List.map_singleton, Links.linkAfter_snoc] at hload
  simp only [NodeContext.load, hnd, Option.map_some, Option.some.injEq] at hload
  exact hload

/-- Comparing the name of a node with a C string. -/
theorem strcmp_stored {n m : CString} (hn : n.length < MAX_ID_LENGTH) :
    strcmpEq (strncpy n MAX_ID_LENGTH) m.stored = some (decide (n = m)) := by
  obtain ⟨h0, hc⟩ := strncpy_short hn
  have hm : (0 : UInt8) ∈ m.stored := by simp [CString.stored]
  rw [strcmpEq, if_pos ⟨h0, hm⟩, hc, cstr_stored]
  simp only [Option.some.injEq, decide_eq_decide]
  exact ⟨fun h => by cases n; cases m; simpa using h, fun h => by rw [h]⟩

/-- Comparing the names of two nodes. -/
theorem strcmp_nodes {n m : CString} (hn : n.length < MAX_ID_LENGTH) (hm : m.length < MAX_ID_LENGTH) :
    strcmpEq (strncpy n MAX_ID_LENGTH) (strncpy m MAX_ID_LENGTH) = some (decide (n = m)) := by
  obtain ⟨h0, hc⟩ := strncpy_short hn
  obtain ⟨h0', hc'⟩ := strncpy_short hm
  rw [strcmpEq, if_pos ⟨h0, h0'⟩, hc, hc']
  simp only [Option.some.injEq, decide_eq_decide]
  exact ⟨fun h => by cases n; cases m; simpa using h, fun h => by rw [h]⟩

/-! ## The loops -/

theorem findLoop_eq (rest : List (ℕ × CString)) :
    ∀ (pre : List (ℕ × CString)) (n : ℕ), ctx.Lists (pre ++ rest) → rest.length < n →
      ctx.findLoop name n (rest.map Prod.fst).head? =
        some ((rest.find? (·.2 = name)).map Prod.fst) := by
  induction rest with
  | nil =>
    intro pre n _ hn
    obtain ⟨n, rfl⟩ : ∃ k, n = k + 1 := ⟨n - 1, by simp at hn; omega⟩
    rfl
  | cons p rest ih =>
    intro pre n h hn
    obtain ⟨n, rfl⟩ : ∃ k, n = k + 1 := ⟨n - 1, by omega⟩
    have hp : p ∈ pre ++ p :: rest := by simp
    obtain ⟨nd, hnd, hname⟩ := h.heap hp
    have hcmp := strcmp_stored (m := name) (h.valid p hp).1
    simp only [List.map_cons, List.head?_cons, findLoop, hnd, hname, hcmp, Option.bind_eq_bind,
      Option.bind_some, decide_eq_true_eq]
    by_cases heq : p.2 = name
    · rw [if_pos heq, List.find?_cons_of_pos (by simpa using heq)]
      rfl
    · rw [if_neg heq, List.find?_cons_of_neg (by simpa using heq), h.next hnd]
      exact ih (pre ++ [p]) n (by simpa using h) (by simpa using hn)

/-- **`find_from_node_list`** finds the node of that name. -/
theorem find_eq (h : ctx.Lists ts) :
    ctx.findFromNodeList name = some ((ts.find? (·.2 = name)).map Prod.fst) := by
  have hhead : ctx.list = (ts.map Prod.fst).head? := Option.some.inj (h.load [])
  have hfuel : ts.length < ctx.fuel := by
    unfold fuel
    rw [h.count]
    omega
  unfold findFromNodeList
  rw [hhead]
  exact findLoop_eq ts [] ctx.fuel h hfuel

theorem lastLoop_eq (rest : List (ℕ × CString)) :
    ∀ (pre : List (ℕ × CString)) (n : ℕ), ctx.Lists (pre ++ rest) → rest.length < n →
      ctx.lastLoop n (linkAfter (pre.map Prod.fst)) =
        some (linkAfter ((pre ++ rest).map Prod.fst)) := by
  induction rest with
  | nil =>
    intro pre n h hn
    obtain ⟨n, rfl⟩ : ∃ k, n = k + 1 := ⟨n - 1, by simp at hn; omega⟩
    have hload := h.load _
    simp only [List.map_nil, List.head?_nil] at hload
    simp only [lastLoop, hload, Option.bind_eq_bind, Option.bind_some, List.append_nil]
  | cons p rest ih =>
    intro pre n h hn
    obtain ⟨n, rfl⟩ : ∃ k, n = k + 1 := ⟨n - 1, by omega⟩
    have hload := h.load _
    simp only [List.map_cons, List.head?_cons] at hload
    simp only [lastLoop, hload, Option.bind_eq_bind, Option.bind_some]
    have hlink := ih (pre ++ [p]) n (by simpa using h) (by simpa using hn)
    rw [List.map_append, List.map_singleton, Links.linkAfter_snoc] at hlink
    rw [hlink]
    simp

/-- The context after the node `s`, behind `pre`, was unlinked and freed. -/
def unlinked (ctx : NodeContext) (pre : List (ℕ × CString)) (s : ℕ) (next : Option ℕ) : NodeContext :=
  { ctx.put (linkAfter (pre.map Prod.fst)) next with
    heap := Function.update (ctx.put (linkAfter (pre.map Prod.fst)) next).heap s none
    count := ctx.count - 1 }

/-- **The loop of `remove_from_node_list`** stops at the node it was given, the only one of
that name. -/
theorem removeLoop_eq (post mid : List (ℕ × CString)) :
    ∀ (pre : List (ℕ × CString)) (n : ℕ), ctx.Lists (pre ++ (mid ++ p :: post)) → mid.length < n →
      ctx.removeLoop p.1 n (linkAfter (pre.map Prod.fst)) =
        some (ctx.unlinked (pre ++ mid) p.1 (post.map Prod.fst).head?) := by
  induction mid with
  | nil =>
    intro pre n h hn
    obtain ⟨n, rfl⟩ : ∃ k, n = k + 1 := ⟨n - 1, by simp at hn; omega⟩
    have hp : p ∈ pre ++ ([] ++ p :: post) := by simp
    obtain ⟨nd, hnd, hname⟩ := h.heap hp
    have hvalid := (h.valid p hp).1
    have hload := h.load _
    rw [List.nil_append] at h hload
    simp only [List.map_cons, List.head?_cons] at hload
    simp only [removeLoop, hload, hnd, hname, strcmp_nodes hvalid hvalid, Option.bind_eq_bind,
      Option.bind_some, decide_true, if_true, store_eq h.link, h.next hnd, List.append_nil]
    -- the node is still in memory when it is freed
    have hheap : ∃ nd', (ctx.put (linkAfter (pre.map Prod.fst)) (post.map Prod.fst).head?).heap p.1 =
        some nd' := by
      have hmap := put_name ctx (linkAfter (pre.map Prod.fst)) (post.map Prod.fst).head? p.1
      rw [hnd, Option.map_some] at hmap
      obtain ⟨nd', hnd', -⟩ := Option.map_eq_some_iff.1 hmap
      exact ⟨nd', hnd'⟩
    obtain ⟨nd', hnd'⟩ := hheap
    have hcount : (ctx.put (linkAfter (pre.map Prod.fst)) (post.map Prod.fst).head?).count = ctx.count := by
      cases linkAfter (pre.map Prod.fst) <;> rfl
    simp only [free, hnd', Option.map_some, Option.bind_some, unlinked, hcount]
  | cons x mid ih =>
    intro pre n h hn
    obtain ⟨n, rfl⟩ : ∃ k, n = k + 1 := ⟨n - 1, by omega⟩
    have hx : x ∈ pre ++ (x :: mid ++ p :: post) := by simp
    have hp : p ∈ pre ++ (x :: mid ++ p :: post) := by simp
    obtain ⟨ndx, hndx, hnamex⟩ := h.heap hx
    obtain ⟨nd, hnd, hname⟩ := h.heap hp
    -- names differ, so the loop goes on
    have hne : x.2 ≠ p.2 := by
      have hnames := h.names
      simp only [List.map_append, List.map_cons, List.cons_append] at hnames
      have hnd' := List.nodup_cons.1 (List.nodup_append.1 hnames).2.1
      intro e
      exact hnd'.1 (by rw [e]; simp)
    have hload := h.load _
    simp only [List.cons_append, List.map_cons, List.head?_cons] at hload
    simp only [removeLoop, hload, hndx, hnd, hnamex, hname,
      strcmp_nodes (h.valid x hx).1 (h.valid p hp).1, Option.bind_eq_bind, Option.bind_some,
      decide_eq_true_eq]
    rw [if_neg hne]
    have hlink := ih (pre ++ [x]) n (by simpa using h) (by simpa using hn)
    rw [List.map_append, List.map_singleton, Links.linkAfter_snoc] at hlink
    rw [hlink]
    simp

/-! ## The operations -/

theorem filter_split (hn : ((pre ++ p :: post).map Prod.fst).Nodup) :
    (pre ++ p :: post).filter (·.1 ≠ p.1) = pre ++ post := by
  rw [List.map_append, List.map_cons, List.nodup_append, List.nodup_cons] at hn
  obtain ⟨-, ⟨hpost, -⟩, hdis⟩ := hn
  have hpre' : pre.filter (·.1 ≠ p.1) = pre := by
    rw [List.filter_eq_self]
    intro x hx
    simpa using hdis _ (List.mem_map_of_mem hx) _ List.mem_cons_self
  have hpost' : post.filter (·.1 ≠ p.1) = post := by
    rw [List.filter_eq_self]
    intro x hx
    simp only [ne_eq, decide_eq_true_eq]
    exact fun e => hpost (e ▸ List.mem_map_of_mem hx)
  rw [List.filter_append, hpre', List.filter_cons_of_neg (by simp), hpost']

/-- **`remove_from_node_list` unlinks the very node it was given**, and frees it. -/
theorem remove_lists (h : ctx.Lists ts) (hs : s ∈ ts.map Prod.fst) :
    ∃ ctx', ctx.removeFromNodeList s = some ctx' ∧ ctx'.Lists (ts.filter (·.1 ≠ s)) ∧
      ctx'.heap s = none ∧
      ∀ b, b ≠ s → (ctx'.heap b).map QsfNode.content = (ctx.heap b).map QsfNode.content := by
  obtain ⟨p, hp, rfl⟩ := List.mem_map.1 hs
  obtain ⟨pre, post, rfl⟩ := List.append_of_mem hp
  have hfuel : pre.length < ctx.fuel := by
    unfold fuel
    rw [h.count, List.length_append]
    omega
  have heq := removeLoop_eq _ pre [] ctx.fuel h hfuel
  rw [List.map_nil, Links.linkAfter_nil, List.nil_append] at heq
  obtain ⟨nd, hnd, -⟩ := h.heap hp
  have hnext := h.next hnd
  have hnd' := h.nodup
  rw [List.map_append, List.map_cons] at hnd'
  have hlinks : ctx.links.next p.1 = (post.map Prod.fst).head? := by
    simp only [links, hnd, Option.bind_some, hnext]
  have hout : p.1 ∉ pre.map Prod.fst ++ post.map Prod.fst := by
    have hdis := List.nodup_append.1 hnd'
    rw [List.mem_append, not_or]
    exact ⟨fun e => hdis.2.2 _ e _ List.mem_cons_self rfl, (List.nodup_cons.1 hdis.2.1).1⟩
  have hkeep : ∀ b, b ≠ p.1 → ((ctx.unlinked pre p.1 (post.map Prod.fst).head?).heap b).map
      QsfNode.content = (ctx.heap b).map QsfNode.content := by
    intro b hb
    simp only [unlinked, Function.update_of_ne hb, put_content]
  refine ⟨_, heq, ?_, Function.update_self .., hkeep⟩
  rw [filter_split h.nodup]
  have hsub : ∀ x ∈ pre ++ post, x ∈ pre ++ p :: post := by
    intro x hx
    rcases List.mem_append.1 hx with hx | hx
    · exact List.mem_append_left _ hx
    · exact List.mem_append_right _ (List.mem_cons_of_mem _ hx)
  have hchain := h.chain
  rw [List.map_append, List.map_cons] at hchain
  refine ⟨?_, ?_, ?_, fun x hx => h.valid x (hsub x hx), ?_, ?_⟩
  · have hun := hchain.unlink hnd'
    rw [hlinks, ← put_links h.link] at hun
    rw [List.map_append]
    apply Seg.congr hun
    intro b hb
    have hb' : b ≠ p.1 := fun e => hout (e ▸ hb)
    simp only [links, unlinked, Function.update_of_ne hb']
  · rw [List.map_append]
    exact hnd'.sublist (List.Sublist.append_left (List.sublist_cons_self _ _) _)
  · intro x hx
    have hx' : x.1 ≠ p.1 := by
      intro e
      refine hout (e ▸ ?_)
      rw [← List.map_append]
      exact List.mem_map_of_mem hx
    rw [name_of_content (hkeep x.1 hx')]
    exact h.node x (hsub x hx)
  · have hn := h.names
    rw [List.map_append, List.map_cons] at hn
    rw [List.map_append]
    exact hn.sublist (List.Sublist.append_left (List.sublist_cons_self _ _) _)
  · show ctx.count - 1 = _
    rw [h.count]
    simp only [List.length_append, List.length_cons]
    omega

/-- The node that `create_from_node_list` writes. -/
def newNode (name path args : CString) : QsfNode :=
  { next := none
    name := strncpy name MAX_ID_LENGTH
    path := strncpy path MAX_PATH
    args := strncpy args MAX_ARG_LENGTH }

/-- The context after the new node `s` was appended behind `ts`. -/
def appended (ctx : NodeContext) (ts : List (ℕ × CString)) (s : ℕ) (nd : QsfNode) : NodeContext :=
  { ({ ctx with heap := Function.update ctx.heap s (some nd) } : NodeContext).put
      (linkAfter (ts.map Prod.fst)) (some s) with count := ctx.count + 1 }

theorem Lists.fresh (h : ctx.Lists ts) (hs : ctx.heap s = none) : s ∉ ts.map Prod.fst := by
  intro hin
  obtain ⟨p, hp, rfl⟩ := List.mem_map.1 hin
  obtain ⟨nd, hnd, -⟩ := h.heap hp
  rw [hs] at hnd
  cases hnd

/-- Memory that is not in the list does not matter. -/
theorem Lists.malloc (h : ctx.Lists ts) (hs : ctx.heap s = none) (nd : QsfNode) :
    ({ ctx with heap := Function.update ctx.heap s (some nd) } : NodeContext).Lists ts := by
  have hne : ∀ b ∈ ts.map Prod.fst, b ≠ s := fun b hb e => h.fresh hs (e ▸ hb)
  refine ⟨h.chain.congr ?_, h.nodup, ?_, h.valid, h.names, h.count⟩
  · intro b hb
    simp only [links, Function.update_of_ne (hne b hb)]
  · intro p hp
    simp only [Function.update_of_ne (hne p.1 (List.mem_map_of_mem hp))]
    exact h.node p hp

/-- The other nodes stay as they are. -/
theorem appended_content {nd : QsfNode} (hb : b ≠ s) :
    ((ctx.appended ts s nd).heap b).map QsfNode.content = (ctx.heap b).map QsfNode.content := by
  have hput := put_content { ctx with heap := Function.update ctx.heap s (some nd) }
    (linkAfter (ts.map Prod.fst)) (some s) b
  simp only [Function.update_of_ne hb] at hput
  exact hput

/-- The node that was appended. -/
theorem appended_self {nd : QsfNode} :
    ((ctx.appended ts s nd).heap s).map QsfNode.content = some nd.content := by
  have hput := put_content { ctx with heap := Function.update ctx.heap s (some nd) }
    (linkAfter (ts.map Prod.fst)) (some s) s
  simp only [Function.update_self, Option.map_some] at hput
  exact hput

/-- **`create_from_node_list`** appends the node. -/
theorem create_eq (h : ctx.Lists ts) (hs : ctx.heap s = none) (path args : CString) :
    ctx.createFromNodeList s name path args = some (ctx.appended ts s (newNode name path args)) := by
  have hm := h.malloc hs (newNode name path args)
  set ctx₁ : NodeContext :=
    { ctx with heap := Function.update ctx.heap s (some (newNode name path args)) } with hctx₁
  have hfuel : ts.length < ctx₁.fuel := by
    unfold fuel
    rw [hm.count]
    omega
  have hlast := lastLoop_eq ts [] ctx₁.fuel hm hfuel
  rw [List.map_nil, Links.linkAfter_nil, List.nil_append] at hlast
  have hlink : ctx₁.Valid (linkAfter (ts.map Prod.fst)) := by
    have h' : ctx₁.Lists (ts ++ []) := by simpa using hm
    exact h'.link
  have hcount : (ctx₁.put (linkAfter (ts.map Prod.fst)) (some s)).count = ctx.count := by
    cases linkAfter (ts.map Prod.fst) <;> rfl
  show ((ctx₁.lastLoop ctx₁.fuel .head).bind fun pph => (ctx₁.store pph (some s)).bind fun c =>
    some { c with count := c.count + 1 }) = _
  rw [hlast, Option.bind_some, store_eq hlink, Option.bind_some, hcount]
  rfl

/-- The list after it. -/
theorem Lists.append (h : ctx.Lists ts) (hs : ctx.heap s = none) (path args : CString)
    (hlen : name.length < MAX_ID_LENGTH) (hsys : name ≠ .sys) (hname : name ∉ ts.map Prod.snd) :
    (ctx.appended ts s (newNode name path args)).Lists (ts ++ [(s, name)]) := by
  have hm := h.malloc hs (newNode name path args)
  have hfresh := h.fresh hs
  have hlink : ({ ctx with heap := Function.update ctx.heap s (some (newNode name path args)) } :
      NodeContext).Valid (linkAfter (ts.map Prod.fst)) := by
    have h' := hm
    rw [← List.append_nil ts] at h'
    exact h'.link
  have hnodup : ((ts ++ [(s, name)]).map Prod.fst).Nodup := by
    rw [List.map_append]
    refine List.nodup_append.2 ⟨h.nodup, List.nodup_singleton _, ?_⟩
    intro x hx y hy e
    rw [List.map_singleton, List.mem_singleton] at hy
    rw [e, hy] at hx
    exact hfresh hx
  refine ⟨?_, hnodup, ?_, ?_, ?_, ?_⟩
  · have hchain := hm.chain.snoc (a := s) (by rw [List.map_append] at hnodup; exact hnodup)
      (by simp [links, newNode])
    rw [← put_links hlink] at hchain
    rw [List.map_append]
    exact hchain
  · intro p hp
    have hheap : (ctx.appended ts s (newNode name path args)).heap = (({ ctx with
        heap := Function.update ctx.heap s (some (newNode name path args)) } : NodeContext).put
        (linkAfter (ts.map Prod.fst)) (some s)).heap := rfl
    rw [hheap, put_name]
    rcases List.mem_append.1 hp with hp | hp
    · exact hm.node p hp
    · rw [List.mem_singleton.1 hp]
      simp [newNode]
  · intro p hp
    rcases List.mem_append.1 hp with hp | hp
    · exact h.valid p hp
    · rw [List.mem_singleton.1 hp]
      exact ⟨hlen, hsys⟩
  · rw [List.map_append]
    refine List.nodup_append.2 ⟨h.names, List.nodup_singleton _, ?_⟩
    intro x hx y hy e
    rw [List.map_singleton, List.mem_singleton] at hy
    rw [e, hy] at hx
    exact hname hx
  · show ctx.count + 1 = _
    rw [h.count]
    simp

/-- **An append that is undone** leaves the context as it was. -/
theorem create_remove (h : ctx.Lists ts) (hs : ctx.heap s = none) (path args : CString)
    (hlen : name.length < MAX_ID_LENGTH) (hsys : name ≠ .sys) (hname : name ∉ ts.map Prod.snd) :
    (ctx.appended ts s (newNode name path args)).removeFromNodeList s = some ctx := by
  have hm := h.malloc hs (newNode name path args)
  have hl := h.append hs path args hlen hsys hname
  set ctx₁ : NodeContext :=
    { ctx with heap := Function.update ctx.heap s (some (newNode name path args)) } with hctx₁
  set ctx₂ := ctx.appended ts s (newNode name path args) with hctx₂
  have hfuel : ts.length < ctx₂.fuel := by
    unfold fuel
    rw [hl.count, List.length_append]
    omega
  have heq := removeLoop_eq (p := (s, name)) [] ts [] ctx₂.fuel hl hfuel
  rw [List.map_nil, Links.linkAfter_nil, List.nil_append] at heq
  unfold removeFromNodeList
  rw [heq]
  -- the last link is written back to the end of the list, as it was
  have hback : ctx₂.put (linkAfter (ts.map Prod.fst)) none = { ctx₁ with count := ctx.count + 1 } := by
    have hload : ctx₁.load (linkAfter (ts.map Prod.fst)) = some none := by
      have h' := hm
      rw [← List.append_nil ts] at h'
      exact h'.load
    have hput := put_load hload
    have hsplit : ctx₂.put (linkAfter (ts.map Prod.fst)) none =
        { (ctx₁.put (linkAfter (ts.map Prod.fst)) (some s)).put (linkAfter (ts.map Prod.fst)) none with
          count := ctx.count + 1 } := by
      rw [hctx₂, appended]
      cases linkAfter (ts.map Prod.fst) <;> rfl
    rw [hsplit, put_put, hput]
  have hheap : Function.update ctx₁.heap s none = ctx.heap := by
    rw [hctx₁]
    simp only [Function.update_idem]
    rw [← hs, Function.update_eq_self]
  have hcount : ctx₂.count - 1 = ctx.count := by
    show ctx.count + 1 - 1 = ctx.count
    omega
  unfold unlinked
  simp only [List.head?_nil, hback, hheap, hcount]
  rfl

/-- **The outcomes of `qsf_create_node`.** -/
theorem qsfCreateNode_cases (name : CString) (h : ctx.Lists ts) (hs : ctx.heap s = none)
    (path args : CString) (r : ℤ) :
    (MAX_ID_LENGTH ≤ name.length ∧ ctx.qsfCreateNode name path args s r = some (1, ctx)) ∨
    (name = .sys ∧ ctx.qsfCreateNode name path args s r = some (2, ctx)) ∨
    (name.length < MAX_ID_LENGTH ∧ name ≠ .sys ∧ name ∈ ts.map Prod.snd ∧
      ctx.qsfCreateNode name path args s r = some (3, ctx)) ∨
    (name.length < MAX_ID_LENGTH ∧ name ≠ .sys ∧ name ∉ ts.map Prod.snd ∧
      ((r < 0 ∧ ctx.qsfCreateNode name path args s r = some (r, ctx)) ∨
       (0 ≤ r ∧ ∃ ctx', ctx.qsfCreateNode name path args s r = some (r, ctx') ∧
          ctx'.Lists (ts ++ [(s, name)]) ∧
          (ctx'.heap s).map QsfNode.content = some (newNode name path args) ∧
          ∀ b, b ≠ s → (ctx'.heap b).map QsfNode.content = (ctx.heap b).map QsfNode.content))) := by
  unfold qsfCreateNode
  by_cases hlen : MAX_ID_LENGTH ≤ name.length
  · rw [if_pos hlen]
    exact .inl ⟨hlen, rfl⟩
  rw [if_neg hlen]
  have hlen' : name.length < MAX_ID_LENGTH := not_le.1 hlen
  by_cases hsys : name = .sys
  · rw [if_pos hsys]
    exact .inr (.inl ⟨hsys, rfl⟩)
  rw [if_neg hsys, find_eq h]
  cases hfind : ts.find? (·.2 = name) with
  | some p =>
    have hp : p.2 = name := by simpa using List.find?_some hfind
    have hin : name ∈ ts.map Prod.snd := hp ▸ List.mem_map_of_mem (List.mem_of_find?_eq_some hfind)
    exact .inr (.inr (.inl ⟨hlen', hsys, hin, rfl⟩))
  | none =>
    have hname : name ∉ ts.map Prod.snd := by
      intro hin
      obtain ⟨p, hp, hpn⟩ := List.mem_map.1 hin
      have hnot := List.find?_eq_none.1 hfind p hp
      simp [hpn] at hnot
    refine .inr (.inr (.inr ⟨hlen', hsys, hname, ?_⟩))
    simp only [Option.map_none, Option.bind_eq_bind, Option.bind_some, create_eq h hs]
    by_cases hr : r < 0
    · rw [if_pos hr, create_remove h hs path args hlen' hsys hname]
      exact .inl ⟨hr, rfl⟩
    · rw [if_neg hr]
      refine .inr ⟨not_lt.1 hr, _, rfl, h.append hs path args hlen' hsys hname, appended_self,
        ?_⟩
      intro b hb
      exact appended_content hb

end NodeContext

/-! ## Runs -/

namespace NodeWorld

open NodeContext

variable {w : NodeWorld}

/-- The invariant: the list holds the nodes whose threads run. -/
structure Inv (w : NodeWorld) : Prop where
  lists : w.ctx.Lists w.threads
  crashed : w.crashed = false

theorem inv_step {e : NodeEvent} (h : w.Inv) (he : w.enabled e) : (w.step e).Inv := by
  cases e with
  | create name path args s r =>
    obtain ⟨hs, hr⟩ := he
    rcases qsfCreateNode_cases name h.lists hs path args r with
      ⟨-, hc⟩ | ⟨-, hc⟩ | ⟨-, -, -, hc⟩ | ⟨-, -, -, ⟨hr', hc⟩ | ⟨hr', ctx', hc, hl, -⟩⟩
    · simp only [step, hc]; exact ⟨h.lists, h.crashed⟩
    · simp only [step, hc]; exact ⟨h.lists, h.crashed⟩
    · simp only [step, hc]; exact ⟨h.lists, h.crashed⟩
    · have hne : r ≠ 0 := by omega
      simp only [step, hc, if_neg hne]
      exact ⟨h.lists, h.crashed⟩
    · have hr0 : r = 0 := by omega
      simp only [step, hc, if_pos hr0]
      exact ⟨hl, h.crashed⟩
  | cleanup s =>
    obtain ⟨ctx', hc, hl, -, -⟩ := remove_lists h.lists he
    simp only [step, cleanupNode, hc]
    exact ⟨hl, h.crashed⟩

theorem inv_init : NodeWorld.init.Inv :=
  ⟨⟨rfl, List.nodup_nil, by simp [NodeWorld.init], by simp [NodeWorld.init], List.nodup_nil, rfl⟩, rfl⟩

theorem inv_reachable (h : nodeRegistry.Reachable w) : w.Inv :=
  Machine.Reachable.invariant (I := Inv) (fun s hs => by obtain rfl : s = NodeWorld.init := hs; exact inv_init)
    (fun s e hs he => inv_step hs he) h

/-- The name a node is registered under. -/
def nameOf (w : NodeWorld) (a : ℕ) : Option (List UInt8) := (w.ctx.heap a).map fun nd => cstr nd.name

/-- **The registry of nodes, in every reachable state.** No access goes wrong. The list
holds the nodes created and not cleaned up, in the order of their creation, under
different valid names, and the count is its length. `qsf_create_node` returns 3 exactly
for a valid name that is registered, and changes nothing when it does not return 0. A
removal takes out the very node it was given. -/
theorem node_registry (h : nodeRegistry.Reachable w) :
    w.crashed = false ∧
    w.ctx.links.Holds (w.threads.map Prod.fst) ∧ (w.threads.map Prod.fst).Nodup ∧
    (∀ p ∈ w.threads, w.nameOf p.1 = some p.2.bytes ∧ p.2.length < MAX_ID_LENGTH ∧ p.2 ≠ .sys) ∧
    (w.threads.map Prod.snd).Nodup ∧
    w.ctx.count = w.threads.length ∧
    (∀ name path args s r, w.enabled (.create name path args s r) →
      ∃ ret ctx', w.ctx.qsfCreateNode name path args s r = some (ret, ctx') ∧
        (ret = 3 ↔ name.length < MAX_ID_LENGTH ∧ name ≠ .sys ∧ name ∈ w.threads.map Prod.snd) ∧
        (ret ≠ 0 → ctx' = w.ctx)) ∧
    ∀ s ∈ w.threads.map Prod.fst, ∃ ctx', w.ctx.removeFromNodeList s = some ctx' ∧
      ctx'.links.Holds ((w.threads.map Prod.fst).erase s) ∧ ctx'.heap s = none ∧
      ∀ b, b ≠ s → (ctx'.heap b).map QsfNode.name = (w.ctx.heap b).map QsfNode.name := by
  have hinv := inv_reachable h
  have hl := hinv.lists
  refine ⟨hinv.crashed, hl.chain, hl.nodup, ?_, hl.names, hl.count, ?_, ?_⟩
  · intro p hp
    obtain ⟨nd, hnd, hname⟩ := hl.heap hp
    refine ⟨?_, hl.valid p hp⟩
    rw [nameOf, hnd, Option.map_some, hname, (strncpy_short (hl.valid p hp).1).2]
  · rintro name path args s r ⟨hs, hr⟩
    rcases qsfCreateNode_cases name hl hs path args r with
      ⟨hlen, hc⟩ | ⟨hsys, hc⟩ | ⟨hlen, hsys, hin, hc⟩ | ⟨-, -, hout, ⟨hr', hc⟩ | ⟨hr', ctx', hc, -⟩⟩
    · exact ⟨1, w.ctx, hc, ⟨by simp, fun h => absurd h.1 (not_lt.2 hlen)⟩, fun _ => rfl⟩
    · exact ⟨2, w.ctx, hc, ⟨by simp, fun h => absurd hsys h.2.1⟩, fun _ => rfl⟩
    · exact ⟨3, w.ctx, hc, ⟨fun _ => ⟨hlen, hsys, hin⟩, fun _ => rfl⟩, fun _ => rfl⟩
    · exact ⟨r, w.ctx, hc, ⟨fun h => by omega, fun h => absurd h.2.2 hout⟩, fun _ => rfl⟩
    · exact ⟨r, ctx', hc, ⟨fun h => by omega, fun h => absurd h.2.2 hout⟩, fun h => by omega⟩
  · intro s hs
    obtain ⟨ctx', hc, hl', hfree, hkeep⟩ := remove_lists hl hs
    refine ⟨ctx', hc, ?_, hfree, fun b hb => name_of_content (hkeep b hb)⟩
    have hchain := hl'.chain
    have herase : (w.threads.filter (·.1 ≠ s)).map Prod.fst = (w.threads.map Prod.fst).erase s := by
      rw [hl.nodup.erase_eq_filter, List.filter_map]
      congr 1
      apply List.filter_congr
      intro x _
      simp [bne, beq_eq_decide]
    rw [← herase]
    exact hchain

/-- Two nodes are created, the first terminates. -/
theorem node_registry_two :
    let a : CString := ⟨[97], by decide⟩
    let b : CString := ⟨[98], by decide⟩
    let w := nodeRegistry.exec NodeWorld.init [.create a a a 10 0, .create b b b 20 0, .cleanup 10]
    w.threads = [(20, b)] ∧ w.ctx.links.Holds [20] ∧ w.ctx.count = 1 := by
  intro a b w
  have hr : nodeRegistry.Runs NodeWorld.init [.create a a a 10 0, .create b b b 20 0, .cleanup 10] :=
    ⟨⟨rfl, le_refl _⟩, ⟨rfl, le_refl _⟩, List.mem_cons_self, trivial⟩
  have h := node_registry (Machine.Reachable.runs (.start rfl) hr)
  exact ⟨rfl, h.2.1, h.2.2.2.2.2.1⟩

end NodeWorld

end Qsf
