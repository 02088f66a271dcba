import Qsf.Proof.NodeRegistry
import Qsf.Spec.Teardown

/-!
# Who cleans up a node

Until `qsf_exit` is called, every node in the list has its thread, which cleans it up
(`Owned`). `qsf_node_exit` cleans up the nodes it finds in the list, and their threads do so
again when they end. It does no harm exactly when it finds none (`cleaned_once_iff`).
-/

set_option autoImplicit false

namespace Qsf

namespace Teardown

open NodeContext

variable {w : Teardown} {s : ℕ}

/-- **Each node is cleaned up once**, and nothing uses it afterwards. -/
structure CleanedOnce (w : Teardown) : Prop where
  once : ∀ a, w.cleaned a ≤ 1
  unused : w.usedFreed = false

/-- `qsf_exit` is called when no node is registered. -/
def ExitsEmpty (w : Teardown) : TeardownEvent → Prop
  | .exit => w.ctx.list = none
  | _ => True

/-- **Each node belongs to its thread**: the list holds the nodes whose threads run, and
these were not cleaned up yet. -/
structure Owned (w : Teardown) : Prop extends CleanedOnce w where
  lists : w.ctx.Lists w.threads
  running : ∀ p ∈ w.threads, w.cleaned p.1 = 0
  objects : ∀ p ∈ w.threads, p.1 ∈ w.objects
  known : ∀ a, a ∉ w.objects → w.ctx.heap a = none ∧ w.cleaned a = 0

/-- The invariant: the threads own the nodes until the walk, and the walk finds none. -/
structure Inv (w : Teardown) : Prop extends Owned w where
  walk : w.exit = .before ∨ w.threads = [] ∧ (w.exit = .loop none ∨ w.exit = .done)

/-! ## A thread ends -/

/-- Rounds beyond the length of the list change nothing. -/
theorem removeLoop_fuel {ctx : NodeContext} {ts : List (ℕ × CString)} (h : ctx.Lists ts)
    (hs : s ∈ ts.map Prod.fst) {n : ℕ} (hn : ts.length < n) :
    ctx.removeLoop s n .head = ctx.removeFromNodeList s := by
  obtain ⟨p, hp, rfl⟩ := List.mem_map.1 hs
  -- both walks end at the node, behind the nodes `pre`
  obtain ⟨pre, post, rfl⟩ := List.append_of_mem hp
  rw [List.length_append] at hn
  have hfuel : pre.length < ctx.fuel := by
    unfold fuel
    rw [h.count, List.length_append]
    omega
  have hshort := removeLoop_eq post pre [] ctx.fuel h hfuel
  have hlong := removeLoop_eq post pre [] n h (by omega)
  rw [List.map_nil, Links.linkAfter_nil] at hshort hlong
  rw [hlong, removeFromNodeList, hshort]

/-- There were at least as many objects as there are threads. -/
theorem Owned.length_le (h : w.Owned) : w.threads.length ≤ w.objects.length := by
  have hsub : w.threads.map Prod.fst ⊆ w.objects := by
    intro a ha
    obtain ⟨p, hp, rfl⟩ := List.mem_map.1 ha
    exact h.objects p hp
  have hle := (h.lists.nodup.subperm hsub).length_le
  rwa [List.length_map] at hle

/-- A node with a thread is in memory. -/
theorem Owned.alive (h : w.Owned) (hs : s ∈ w.threads.map Prod.fst) :
    (w.ctx.heap s).isNone = false := by
  obtain ⟨p, hp, rfl⟩ := List.mem_map.1 hs
  obtain ⟨nd, hnd, -⟩ := h.lists.heap hp
  rw [hnd]
  rfl

/-- **`cleanup_node` by the thread of the node** frees it, and only it. -/
theorem Owned.cleanup (h : w.Owned) (hs : s ∈ w.threads.map Prod.fst) :
    ∃ ctx, w.cleanupNode s = { w with ctx := ctx, cleaned := Function.update w.cleaned s 1 } ∧
      ctx.Lists (w.threads.filter (·.1 ≠ s)) ∧ ∀ a, a ∉ w.objects → ctx.heap a = none := by
  obtain ⟨ctx, hrem, hl, hfree, hkeep⟩ := remove_lists h.lists hs
  have hloop : w.ctx.removeLoop s (w.objects.length + 1) .head = some ctx := by
    rw [removeLoop_fuel h.lists hs (Nat.lt_succ_of_le h.length_le), hrem]
  -- it was not cleaned up before
  have hzero : w.cleaned s = 0 := by
    obtain ⟨p, hp, rfl⟩ := List.mem_map.1 hs
    exact h.running p hp
  refine ⟨ctx, ?_, hl, ?_⟩
  · unfold cleanupNode uses
    simp only [hloop, h.alive hs, h.unused, hzero, Bool.or_self, Nat.zero_add]
  · intro a ha
    have hne : a ≠ s := by
      rintro rfl
      obtain ⟨p, hp, rfl⟩ := List.mem_map.1 hs
      exact ha (h.objects p hp)
    have hmap := hkeep a hne
    rw [(h.known a ha).1] at hmap
    exact Option.map_eq_none_iff.1 hmap

theorem Owned.terminate (h : w.Owned) (hs : s ∈ w.threads.map Prod.fst) :
    (w.step (.terminate s)).Owned := by
  obtain ⟨ctx, hcl, hl, hheap⟩ := h.cleanup hs
  obtain ⟨q, hq, rfl⟩ := List.mem_map.1 hs
  simp only [step, hcl]
  refine ⟨⟨?_, h.unused⟩, hl, ?_, ?_, fun a ha => ⟨hheap a ha, ?_⟩⟩
  · intro a
    by_cases ha : a = q.1
    · subst ha
      simp only [Function.update_self, le_refl]
    · simp only [Function.update_of_ne ha]
      exact h.once a
  · intro p hp
    obtain ⟨hp, hne⟩ := List.mem_filter.1 hp
    simp only [Function.update_of_ne (of_decide_eq_true hne)]
    exact h.running p hp
  · intro p hp
    exact h.objects p (List.mem_filter.1 hp).1
  · have hne : a ≠ q.1 := fun e => ha (e ▸ h.objects q hq)
    simp only [Function.update_of_ne hne]
    exact (h.known a ha).2

theorem cleanupNode_cleaned (w : Teardown) (s : ℕ) :
    (w.cleanupNode s).cleaned = Function.update w.cleaned s (w.cleaned s + 1) := by
  unfold cleanupNode
  simp only
  split <;> rfl

theorem cleanupNode_threads (w : Teardown) (s : ℕ) : (w.cleanupNode s).threads = w.threads := by
  unfold cleanupNode
  simp only
  split <;> rfl

/-! ## A node is created -/

theorem Owned.create (h : w.Owned) (name path args : CString) {r : ℤ} (hs : s ∉ w.objects)
    (hr : r ≤ 0) :
    (w.step (.create name path args s r)).Owned := by
  obtain ⟨hheap, hzero⟩ := h.known s hs
  -- the context and the threads stay, or the node is appended
  have hsame : ∀ ret : ℤ, ret ≠ 0 → w.ctx.qsfCreateNode name path args s r = some (ret, w.ctx) →
      (w.step (.create name path args s r)).Owned := by
    intro ret hne hc
    simp only [step, hc, if_neg hne]
    refine ⟨⟨h.once, h.unused⟩, h.lists, h.running, fun p hp => List.mem_cons_of_mem _ (h.objects p hp),
      fun a ha => h.known a fun hin => ha (List.mem_cons_of_mem _ hin)⟩
  rcases qsfCreateNode_cases name h.lists hheap path args r with
    ⟨-, hc⟩ | ⟨-, hc⟩ | ⟨-, -, -, hc⟩ | ⟨-, -, -, ⟨hr', hc⟩ | ⟨hr', ctx, hc, hl, -, hkeep⟩⟩
  · exact hsame 1 (by norm_num) hc
  · exact hsame 2 (by norm_num) hc
  · exact hsame 3 (by norm_num) hc
  · exact hsame r hr'.ne hc
  · have hr0 : r = 0 := le_antisymm hr hr'
    simp only [step, hc, if_pos hr0]
    refine ⟨⟨h.once, h.unused⟩, hl, ?_, ?_, ?_⟩
    · intro p hp
      rcases List.mem_append.1 hp with hp | hp
      · exact h.running p hp
      · rw [List.mem_singleton.1 hp]
        exact hzero
    · intro p hp
      rcases List.mem_append.1 hp with hp | hp
      · exact List.mem_cons_of_mem _ (h.objects p hp)
      · rw [List.mem_singleton.1 hp]
        exact List.mem_cons_self
    · intro a ha
      rw [List.mem_cons, not_or] at ha
      have hmap := hkeep a ha.1
      rw [(h.known a ha.2).1] at hmap
      exact ⟨Option.map_eq_none_iff.1 hmap, (h.known a ha.2).2⟩

theorem Owned.run (h : w.Owned) (hs : s ∈ w.threads.map Prod.fst) : w.uses s = w := by
  unfold uses
  rw [h.alive hs, h.unused, Bool.or_self, ← h.unused]

theorem Owned.of_eq {w' : Teardown} (h : w.Owned) (hc : w'.ctx = w.ctx) (ht : w'.threads = w.threads)
    (ho : w'.objects = w.objects) (hcl : w'.cleaned = w.cleaned) (hu : w'.usedFreed = w.usedFreed) : w'.Owned := by
  refine ⟨⟨by rw [hcl]; exact h.once, by rw [hu]; exact h.unused⟩, ?_, ?_, ?_, ?_⟩
  · rw [hc, ht]; exact h.lists
  · rw [ht, hcl]; exact h.running
  · rw [ht, ho]; exact h.objects
  · rw [ho, hc, hcl]; exact h.known

/-! ## Runs -/

/-- The list is empty when no thread runs. -/
theorem Owned.list_eq (h : w.Owned) : w.ctx.list = (w.threads.map Prod.fst).head? :=
  Option.some.inj (h.lists.load [])

theorem inv_init : init.Inv where
  once _ := Nat.zero_le 1
  unused := rfl
  lists := NodeWorld.inv_init.lists
  running _ hp := absurd hp List.not_mem_nil
  objects _ hp := absurd hp List.not_mem_nil
  known _ _ := ⟨rfl, rfl⟩
  walk := .inl rfl

/-- **One step**, where `qsf_exit` finds no node. -/
theorem inv_step (h : w.Inv) {e : TeardownEvent} (he : w.enabled e) (hc : w.ExitsEmpty e) :
    (w.step e).Inv := by
  -- once `qsf_exit` was called no node has a thread
  have hnone : ∀ {a : ℕ}, w.exit ≠ .before → a ∉ w.threads.map Prod.fst := by
    intro a hb ha
    obtain ⟨ht, -⟩ := h.walk.resolve_left hb
    rw [ht] at ha
    exact absurd ha List.not_mem_nil
  cases e with
  | create name path args s r =>
    obtain ⟨hs, hr, hby⟩ := he
    refine ⟨h.toOwned.create name path args hs hr, .inl ?_⟩
    have hexit : (w.step (.create name path args s r)).exit = w.exit := by
      simp only [step]
      split <;> rfl
    rw [hexit]
    by_contra hb
    obtain ⟨ht, -⟩ := h.walk.resolve_left hb
    exact hby.elim hb fun h => h.1 ht
  | run s =>
    simp only [step, h.toOwned.run he]
    exact h
  | terminate s =>
    refine ⟨h.toOwned.terminate he, .inl ?_⟩
    have hexit : (w.step (.terminate s)).exit = w.exit := by
      obtain ⟨ctx, hcl, -⟩ := h.toOwned.cleanup he
      simp only [step, hcl]
    rw [hexit]
    by_contra hb
    exact hnone hb he
  | exit =>
    have hlist : w.ctx.list = none := hc
    have ht : w.threads = [] := by
      rw [h.toOwned.list_eq, List.head?_eq_none_iff, List.map_eq_nil_iff] at hlist
      exact hlist
    refine ⟨h.toOwned.of_eq rfl rfl rfl rfl rfl, .inr ⟨ht, .inl ?_⟩⟩
    simp only [step, hlist]
  | next =>
    obtain ⟨ctx, hloop⟩ := he
    have hb : w.exit ≠ .before := by rw [hloop]; simp
    obtain ⟨ht, hw⟩ := h.walk.resolve_left hb
    -- the walk is at the end of the list
    have hend : w.exit = .loop none := hw.resolve_right (by rw [hloop]; simp)
    have hcount : w.ctx.count = 0 := by
      rw [h.lists.count, ht]
      rfl
    simp only [step, exitNext, hend]
    refine ⟨h.toOwned.of_eq ?_ rfl rfl rfl rfl, .inr ⟨ht, .inr rfl⟩⟩
    rw [← hcount]
  | clean =>
    obtain ⟨p, ctx, hclean⟩ := he
    have hb : w.exit ≠ .before := by rw [hclean]; simp
    obtain ⟨-, hw⟩ := h.walk.resolve_left hb
    rw [hclean] at hw
    simp at hw

/-- **A node that is registered when `qsf_exit` is called** is cleaned up by the walk, and
again when its thread ends. -/
theorem cleaned_twice (h : w.Owned) (hb : w.exit = .before) (hlist : w.ctx.list ≠ none) :
    ∃ es, teardown.Runs w (.exit :: es) ∧ ¬ teardown.Along CleanedOnce w (.exit :: es) := by
  -- the first node of the list, and its thread
  obtain ⟨p, rest, ht⟩ : ∃ p rest, w.threads = p :: rest := by
    rcases hw : w.threads with _ | ⟨p, rest⟩
    · rw [h.list_eq, hw] at hlist
      exact absurd rfl hlist
    · exact ⟨p, rest, rfl⟩
  have hp : p.1 ∈ w.threads.map Prod.fst := by
    rw [ht]
    exact List.mem_cons_self
  have hhead : w.ctx.list = some p.1 := by
    rw [h.list_eq, ht]
    rfl
  -- `qsf_exit` takes the first node from the list
  have hexit : teardown.step w .exit = { w with exit := .loop (some p.1) } := by
    simp only [teardown, step, hhead]
  have hnext : teardown.step { w with exit := .loop (some p.1) } .next =
      { w with exit := .cleaning p.1 ((w.ctx.heap p.1).bind QsfNode.next) } := by
    have hloop : Owned { w with exit := .loop (some p.1) } := h.of_eq rfl rfl rfl rfl rfl
    simp only [teardown, step, exitNext, hloop.run hp]
  set w₂ : Teardown := { w with exit := .cleaning p.1 ((w.ctx.heap p.1).bind QsfNode.next) }
  have hthreads : (teardown.step w₂ .clean).threads = w.threads := cleanupNode_threads w₂ p.1
  -- the walk cleans it up, and its thread goes on
  have hfirst : (teardown.step w₂ .clean).cleaned p.1 = w.cleaned p.1 + 1 := by
    show (w₂.cleanupNode p.1).cleaned p.1 = _
    rw [cleanupNode_cleaned, Function.update_self]
  have hsecond : (teardown.step (teardown.step w₂ .clean) (.terminate p.1)).cleaned p.1 = w.cleaned p.1 + 2 := by
    show ((teardown.step w₂ .clean).cleanupNode p.1).cleaned p.1 = _
    rw [cleanupNode_cleaned, Function.update_self, hfirst]
  refine ⟨[.next, .clean, .terminate p.1], ⟨hb, ?_⟩, ?_⟩
  · rw [hexit]
    refine ⟨⟨_, rfl⟩, ?_⟩
    rw [hnext]
    refine ⟨⟨_, _, rfl⟩, ?_, trivial⟩
    show p.1 ∈ (teardown.step w₂ .clean).threads.map Prod.fst
    rw [hthreads]
    exact hp
  · intro hal
    have hlast := hal.2
    rw [hexit] at hlast
    have hlast' := hlast.2
    rw [hnext] at hlast'
    have honce := hlast'.2.2.once p.1
    rw [hsecond] at honce
    omega

/-- `qsf_exit` is not forgotten. -/
theorem before_of_step {e : TeardownEvent} (hb : (w.step e).exit = .before) : w.exit = .before := by
  cases e with
  | create name path args s r =>
    simp only [step] at hb
    split at hb <;> exact hb
  | run s => exact hb
  | terminate s =>
    simp only [step, cleanupNode, uses] at hb
    split at hb <;> exact hb
  | exit => simp [step] at hb
  | next =>
    simp only [step, exitNext] at hb
    split at hb
    · simp at hb
    · simp at hb
    · exact hb
  | clean =>
    simp only [step, exitClean] at hb
    split at hb
    · simp at hb
    · exact hb

/-- Until `qsf_exit` is called the threads own the nodes. -/
theorem owned_before (h : teardown.Reachable w) (hb : w.exit = .before) : w.Owned := by
  have hinv : w.exit = .before → w.Owned := by
    refine Machine.Reachable.invariant (I := fun w => w.exit = .before → w.Owned) ?_ ?_ h
    · rintro _ rfl _
      exact inv_init.toOwned
    · intro w e ih he hb'
      have hbw := before_of_step hb'
      have hc : w.ExitsEmpty e := by
        cases e with
        | exit => simp [teardown, step] at hb'
        | create | run | terminate | next | clean => trivial
      exact (inv_step ⟨ih hbw, .inl hbw⟩ he hc).toOwned
  exact hinv hb

/-- After a call that found no node. -/
theorem inv_after {e : TeardownEvent} (h : w.Inv ∧ w.exit ≠ .before) (he : w.enabled e) :
    (w.step e).Inv ∧ (w.step e).exit ≠ .before := by
  have hc : w.ExitsEmpty e := by
    cases e with
    | exit => exact absurd he h.2
    | create | run | terminate | next | clean => trivial
  exact ⟨inv_step h.1 he hc, fun hb => h.2 (before_of_step hb)⟩

/-- **Each node is cleaned up at most once**, and not used afterwards, in every run in which
`qsf_exit` is called when no node is registered: from the start, or from any state before
the call. In such a state a call of `qsf_exit` has no run behind it that does otherwise
exactly when it finds no node. -/
theorem cleaned_once_iff (hw : teardown.Reachable w) (hb : w.exit = .before) :
    (∀ es, teardown.Runs w es → teardown.Meets ExitsEmpty w es → teardown.Along CleanedOnce w es) ∧
    ((∀ es, teardown.Runs w (.exit :: es) → teardown.Along CleanedOnce w (.exit :: es)) ↔
      w.ctx.list = none) := by
  have how := owned_before hw hb
  refine ⟨?_, ?_, ?_⟩
  · intro es hr hm
    exact Machine.Meets.along (I := Inv) (fun w e hw he => inv_step hw he.1 he.2)
      (fun _ hw => hw.toCleanedOnce) ⟨how, .inl hb⟩ (hr.and hm)
  · intro h
    by_contra hlist
    obtain ⟨es, hr, hno⟩ := cleaned_twice how hb hlist
    exact hno (h es hr)
  · intro hlist es hr
    have hinv : (w.step .exit).Inv := inv_step ⟨how, .inl hb⟩ hr.1 hlist
    have hloop : (w.step .exit).exit ≠ .before := by simp [step]
    refine ⟨how.toCleanedOnce, ?_⟩
    exact Machine.Meets.along (I := fun w => w.Inv ∧ w.exit ≠ .before) (fun w e hw he => inv_after hw he)
      (fun _ hw => hw.1.toCleanedOnce) ⟨hinv, hloop⟩ hr.2

/-- A node is created and terminates before `qsf_exit` is called. -/
theorem cleaned_once_iff_one :
    let a : CString := ⟨[97], by decide⟩
    teardown.Along CleanedOnce init [.create a a a 10 0, .run 10, .terminate 10, .exit, .next] := by
  intro a
  refine (cleaned_once_iff (.start rfl) rfl).1 _ ?_ ⟨trivial, trivial, trivial, rfl, trivial, trivial⟩
  exact ⟨⟨List.not_mem_nil, le_refl _, .inl rfl⟩, List.mem_cons_self, List.mem_cons_self, rfl, ⟨none, rfl⟩, trivial⟩

/-- **`qsf_exit` while the node `"a"` is running**: the walk cleans it up, and then its
thread does so again. -/
theorem exit_cleans_running_node :
    let a : CString := ⟨[97], by decide⟩
    let es : List TeardownEvent := [.create a a a 10 0, .exit, .next, .clean, .terminate 10]
    teardown.Runs init es ∧ ¬ teardown.Along CleanedOnce init es ∧ (teardown.exec init es).usedFreed = true := by
  intro a es
  refine ⟨⟨⟨List.not_mem_nil, le_refl _, .inl rfl⟩, rfl, ⟨some 10, rfl⟩, ⟨10, none, rfl⟩, List.mem_cons_self, trivial⟩,
    ?_, rfl⟩
  intro h
  have honce : (teardown.exec init es).cleaned 10 ≤ 1 := h.last.once 10
  have htwice : (teardown.exec init es).cleaned 10 = 2 := rfl
  omega

end Teardown

end Qsf
