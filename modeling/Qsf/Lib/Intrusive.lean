import Mathlib.Data.List.Nodup
import Mathlib.Logic.Function.Basic
import Mathlib.Tactic

/-!
# Insertion-ordered intrusive maps

A container whose links live inside its elements: each element carries its own
`next` pointer, and a removed element keeps the pointer it had when it left.
Removing an element that is not a member is outside the contract; the map then
records a fault.

* `succIn`: the element after `a` in a list, and what `erase` does to it
  (`succIn_erase`).
* `IMap`: members in insertion order, the stale pointers of removed elements, and
  the fault flag. `IMap.next_del` says how a removal moves every pointer.
* `IMap.LeadsTo`: the way from a saved pointer, over removed elements, to the next
  member; a removal prolongs it by the removed element (`LeadsTo.del`).
* `walk`: iteration that saves the next pointer before it runs its body. It is a
  left fold when the body removes at most the current element (`walk_eq_foldl`);
  for other bodies there is a rule with an invariant on the saved pointer
  (`walk_rule`). The number of rounds allowed does not matter once it covers the
  elements ahead (`walk_fuel`).
-/

universe u v

/-- The element after `a` in `l`. -/
def succIn {α : Type u} [DecidableEq α] : List α → α → Option α
  | x :: y :: l, a => if x = a then some y else succIn (y :: l) a
  | _, _ => none

section Succ

variable {α : Type u} [DecidableEq α] {l : List α} {a b y : α}

theorem succIn_cons_ne {x : α} (h : x ≠ a) : succIn (x :: l) a = succIn l a := by
  cases l with
  | nil => rfl
  | cons z l => simp [succIn, h]

theorem succIn_cons_self : succIn (a :: l) a = l.head? := by
  cases l <;> simp [succIn]

theorem succIn_append {pre : List α} (h : a ∉ pre) : succIn (pre ++ a :: l) a = l.head? := by
  induction pre with
  | nil => exact succIn_cons_self
  | cons x pre ih =>
    have hx : x ≠ a := fun e => h (e ▸ List.mem_cons_self)
    rw [List.cons_append, succIn_cons_ne hx]
    exact ih (fun e => h (List.mem_cons_of_mem _ e))

theorem mem_of_succIn (h : succIn l a = some b) : a ∈ l ∧ b ∈ l := by
  induction l with
  | nil => simp [succIn] at h
  | cons x l ih =>
    by_cases hx : x = a
    · subst hx
      rw [succIn_cons_self] at h
      exact ⟨List.mem_cons_self, List.mem_cons_of_mem _ (List.mem_of_mem_head? h)⟩
    · rw [succIn_cons_ne hx] at h
      exact ⟨List.mem_cons_of_mem _ (ih h).1, List.mem_cons_of_mem _ (ih h).2⟩

theorem succIn_ne (hn : l.Nodup) (h : succIn l a = some b) : b ≠ a := by
  obtain ⟨pre, suf, rfl⟩ := List.append_of_mem (mem_of_succIn h).1
  have hd := List.nodup_append.1 hn
  have hpre : a ∉ pre := fun e => hd.2.2 _ e _ List.mem_cons_self rfl
  rw [succIn_append hpre] at h
  intro e
  exact (List.nodup_cons.1 hd.2.1).1 (e ▸ List.mem_of_mem_head? h)

/-- **What an erase does to the successor of another element**: who pointed at the
erased element now points past it, the others are untouched. -/
theorem succIn_erase (hn : l.Nodup) (ha : a ≠ y) :
    succIn (l.erase y) a = if succIn l a = some y then succIn l y else succIn l a := by
  induction l with
  | nil => simp [succIn]
  | cons x l ih =>
    have hnl := List.nodup_cons.1 hn
    by_cases hx : x = y
    · subst hx
      have hne : succIn l a ≠ some x := fun e => hnl.1 (mem_of_succIn e).2
      rw [List.erase_cons_head, succIn_cons_ne (Ne.symm ha), if_neg hne]
    · rw [List.erase_cons_tail (by simpa using hx), succIn_cons_ne hx]
      by_cases hxa : x = a
      · subst hxa
        rw [succIn_cons_self, succIn_cons_self]
        cases l with
        | nil => simp
        | cons z l =>
          by_cases hz : z = y
          · subst hz; simp [succIn_cons_self]
          · simp [List.erase_cons_tail (show ¬(z == y) = true by simpa using hz), hz]
      · rw [succIn_cons_ne hxa, succIn_cons_ne hxa]
        exact ih hnl.2

theorem succIn_lt [LT α] (hs : l.Pairwise (· < ·)) (h : succIn l a = some b) : a < b := by
  induction l with
  | nil => simp [succIn] at h
  | cons x l ih =>
    have hs' := List.pairwise_cons.1 hs
    by_cases hx : x = a
    · subst hx
      rw [succIn_cons_self] at h
      exact hs'.1 _ (List.mem_of_mem_head? h)
    · rw [succIn_cons_ne hx] at h; exact ih hs'.2 h

end Succ

/-- An insertion-ordered intrusive map, seen as its members in order. `left` is the
`next` pointer an element keeps after it was removed. -/
structure IMap (α : Type u) where
  items : List α
  left : α → Option α
  fault : Bool
  nodup : items.Nodup

namespace IMap

variable {α : Type u} [DecidableEq α]

def empty : IMap α := ⟨[], fun _ => none, false, List.nodup_nil⟩

/-- The `next` pointer stored in `a`, member or not. -/
def next (m : IMap α) (a : α) : Option α :=
  if a ∈ m.items then succIn m.items a else m.left a

def count (m : IMap α) : ℕ := m.items.length

/-- Append a new member. -/
def add (m : IMap α) (a : α) : IMap α :=
  if h : a ∈ m.items then { m with fault := true }
  else { m with
    items := m.items ++ [a]
    nodup := List.nodup_append.2 ⟨m.nodup, List.nodup_singleton a, fun _ hx _ hy e =>
      h (by rw [List.mem_singleton] at hy; rw [← hy, ← e]; exact hx)⟩ }

/-- Unlink a member. The removed element keeps its pointer. -/
def del (m : IMap α) (a : α) : IMap α :=
  if a ∈ m.items then
    { items := m.items.erase a
      left := Function.update m.left a (succIn m.items a)
      fault := m.fault
      nodup := m.nodup.erase a }
  else { m with fault := true }

variable {m : IMap α} {a b : α}

theorem del_items (h : a ∈ m.items) : (m.del a).items = m.items.erase a := by simp [del, h]

theorem del_fault (h : a ∈ m.items) : (m.del a).fault = m.fault := by simp [del, h]

theorem del_left (h : a ∈ m.items) :
    (m.del a).left b = if b = a then succIn m.items a else m.left b := by
  by_cases hb : b = a
  · subst hb; simp [del, h]
  · simp [del, h, hb]

theorem del_of_not_mem (h : a ∉ m.items) : m.del a = { m with fault := true } := by simp [del, h]

theorem add_items (h : a ∉ m.items) : (m.add a).items = m.items ++ [a] := by simp [add, h]

theorem add_fault (h : a ∉ m.items) : (m.add a).fault = m.fault := by simp [add, h]

@[simp] theorem add_left : (m.add a).left = m.left := by unfold add; split <;> rfl

theorem mem_del (h : a ∈ m.items) : b ∈ (m.del a).items ↔ b ≠ a ∧ b ∈ m.items := by
  rw [del_items h, m.nodup.mem_erase_iff]

theorem mem_of_mem_del (h : b ∈ (m.del a).items) : b ∈ m.items := by
  unfold del at h
  split at h
  · exact List.mem_of_mem_erase h
  · exact h

theorem next_mem (h : a ∈ m.items) (hb : m.next a = some b) : b ∈ m.items := by
  rw [next, if_pos h] at hb; exact (mem_of_succIn hb).2

theorem next_ne (h : a ∈ m.items) : m.next a ≠ some a := by
  rw [next, if_pos h]; exact fun e => succIn_ne m.nodup e rfl

/-- **What a removal does to the pointers**: the removed element and the elements
already removed keep theirs, the member before it now points past it. -/
theorem next_del (h : a ∈ m.items) :
    (m.del a).next b = if b ∈ m.items ∧ b ≠ a ∧ m.next b = some a then m.next a else m.next b := by
  have hdel : m.del a = ⟨m.items.erase a, Function.update m.left a (succIn m.items a), m.fault,
    m.nodup.erase a⟩ := by simp [del, h]
  rw [hdel]
  simp only [next, m.nodup.mem_erase_iff, h, if_true]
  by_cases hba : b = a
  · subst hba; simp [h]
  · by_cases hb : b ∈ m.items
    · simp only [hba, hb, ne_eq, not_false_eq_true, true_and, if_true, succIn_erase m.nodup hba]
    · simp [hb, hba]

/-- Every pointer, live or stale, leads to an element inserted later. -/
def Forward (m : IMap ℕ) : Prop :=
  m.items.Pairwise (· < ·) ∧ ∀ a b, m.left a = some b → a < b

theorem Forward.next {m : IMap ℕ} (h : m.Forward) {a b : ℕ} (hb : m.next a = some b) : a < b := by
  unfold IMap.next at hb
  split at hb
  · exact succIn_lt h.1 hb
  · exact h.2 a b hb

theorem Forward.empty : (IMap.empty : IMap ℕ).Forward := ⟨List.Pairwise.nil, by simp [IMap.empty]⟩

theorem Forward.del {m : IMap ℕ} (h : m.Forward) (a : ℕ) : (m.del a).Forward := by
  by_cases ha : a ∈ m.items
  · refine ⟨by rw [del_items ha]; exact h.1.sublist List.erase_sublist, ?_⟩
    intro x y hy
    rw [del_left ha] at hy
    split at hy
    · rename_i hx; subst hx; exact succIn_lt h.1 hy
    · exact h.2 x y hy
  · rw [del_of_not_mem ha]; exact h

theorem Forward.add {m : IMap ℕ} (h : m.Forward) {a : ℕ} (ha : ∀ b ∈ m.items, b < a) :
    (m.add a).Forward := by
  have hm : a ∉ m.items := fun e => absurd (ha a e) (lt_irrefl a)
  refine ⟨?_, by rw [add_left]; exact h.2⟩
  rw [add_items hm, List.pairwise_append]
  exact ⟨h.1, List.pairwise_singleton _ _, fun x hx y hy => by
    rw [List.mem_singleton.1 hy]; exact ha x hx⟩

/-- From the pointer `p`, over removed elements that satisfy `skip`, to `q`: a member,
or the end of the list. -/
inductive LeadsTo (m : IMap α) (skip : α → Prop) : Option α → Option α → Prop
  | here {q : Option α} : (∀ a, q = some a → a ∈ m.items) → LeadsTo m skip q q
  | stale {a : α} {q : Option α} : a ∉ m.items → skip a → LeadsTo m skip (m.next a) q →
      LeadsTo m skip (some a) q

namespace LeadsTo

variable {skip : α → Prop} {p q : Option α} {x z : α}

/-- **A removal prolongs the way** by the removed element, when the way ended there. -/
theorem del (h : m.LeadsTo skip p q) (hz : z ∈ m.items) (hs : q = some z → skip z) :
    (m.del z).LeadsTo skip p (if q = some z then m.next z else q) := by
  induction h with
  | @here q hq =>
    by_cases hqz : q = some z
    · rw [if_pos hqz, hqz]
      have hout : z ∉ (m.del z).items := fun hin => ((mem_del hz).1 hin).1 rfl
      have hnext : (m.del z).next z = m.next z := by
        rw [next_del hz, if_neg (fun h => h.2.1 rfl)]
      refine .stale hout (hs hqz) ?_
      rw [hnext]
      refine .here fun a ha => (mem_del hz).2 ⟨?_, next_mem hz ha⟩
      rintro rfl
      exact next_ne hz ha
    · rw [if_neg hqz]
      refine .here fun a ha => (mem_del hz).2 ⟨?_, hq a ha⟩
      rintro rfl
      exact hqz ha
  | @stale a q ha hskip _ ih =>
    have hnext : (m.del z).next a = m.next a := by
      rw [next_del hz, if_neg (fun h => ha h.1)]
    refine .stale (fun hin => ha (mem_of_mem_del hin)) hskip ?_
    rw [hnext]
    exact ih hs

/-- The way to the element after `x`, when another element is removed. -/
theorem del_next (h : m.LeadsTo skip p (m.next x)) (hx : x ∈ m.items) (hz : z ∈ m.items)
    (hne : x ≠ z) (hs : m.next x = some z → skip z) :
    (m.del z).LeadsTo skip p ((m.del z).next x) := by
  have hdel := h.del hz hs
  have hnext : (m.del z).next x = if m.next x = some z then m.next z else m.next x := by
    rw [next_del hz]
    simp only [hx, hne, ne_eq, not_false_eq_true, true_and]
  rwa [hnext]

/-- The way to the element after `x`, when `x` itself is removed. -/
theorem del_self (h : m.LeadsTo skip p (m.next x)) (hx : x ∈ m.items) :
    (m.del x).LeadsTo skip p (m.next x) := by
  have hdel := h.del hx (fun e => absurd e (next_ne hx))
  rwa [if_neg (next_ne hx)] at hdel

/-- An element on the way that must not be skipped is a member. -/
theorem mem (h : m.LeadsTo skip (some x) q) (hx : ¬ skip x) : x ∈ m.items := by
  cases h with
  | here hq => exact hq x rfl
  | stale _ hskip => exact absurd hskip hx

/-- The way goes on behind its first element. -/
theorem tail (h : m.LeadsTo skip (some x) q) : ∃ q', m.LeadsTo skip (m.next x) q' := by
  cases h with
  | here hq => exact ⟨m.next x, .here fun a ha => next_mem (hq x rfl) ha⟩
  | stale _ _ h => exact ⟨q, h⟩

end LeadsTo

end IMap

/-! ## Iteration with a saved next pointer -/

section Walk

variable {σ : Type v} {α : Type u}

/-- Visit `el`, then go on from `tmp`, the next pointer read before the body ran. At
most `n` elements are visited. -/
def walk (next : σ → α → Option α) (body : σ → α → σ) : ℕ → σ → Option α → Option α → σ
  | 0, s, _, _ => s
  | _ + 1, s, none, _ => s
  | n + 1, s, some a, tmp =>
    let s' := body s a
    walk next body n s' tmp (tmp.bind (next s'))

variable {next : σ → α → Option α} {body : σ → α → σ}

@[simp] theorem walk_none (n : ℕ) (s : σ) (tmp : Option α) : walk next body n s none tmp = s := by
  cases n <;> rfl

/-- **The walk as a fold.** When the body leaves the members alone or removes the one
it is run on, the walk from the head of a suffix visits that suffix in order. -/
theorem walk_eq_foldl [DecidableEq α] (items : σ → List α) (I : σ → Prop)
    (hnodup : ∀ s, I s → (items s).Nodup)
    (hnext : ∀ s a, a ∈ items s → next s a = succIn (items s) a)
    (hbody : ∀ s a, I s → a ∈ items s → I (body s a) ∧
      (items (body s a) = items s ∨ items (body s a) = (items s).erase a)) :
    ∀ (l pre : List α) (s : σ) (n : ℕ), I s → items s = pre ++ l → l.length ≤ n →
      walk next body n s l.head? (l.head?.bind (next s)) = l.foldl body s := by
  intro l
  induction l with
  | nil => intro pre s n _ _ _; simp
  | cons a l ih =>
    intro pre s n hI hs hn
    obtain ⟨n, rfl⟩ : ∃ k, n = k + 1 := ⟨n - 1, by simp at hn; omega⟩
    have hnd := hnodup s hI
    have ha : a ∈ items s := by rw [hs]; simp
    have hpre : a ∉ pre := by
      rw [hs] at hnd
      exact fun e => (List.nodup_append.1 hnd).2.2 a e a List.mem_cons_self rfl
    have htmp : next s a = l.head? := by rw [hnext s a ha, hs, succIn_append hpre]
    obtain ⟨hI', hitems⟩ := hbody s a hI ha
    have hs' : ∃ pre', items (body s a) = pre' ++ l := by
      rcases hitems with h | h
      · exact ⟨pre ++ [a], by rw [h, hs]; simp⟩
      · exact ⟨pre, by rw [h, hs, List.erase_append_right _ hpre, List.erase_cons_head]⟩
    obtain ⟨pre', hs'⟩ := hs'
    simp only [List.head?_cons, Option.bind_some, List.foldl_cons, walk, htmp]
    exact ih pre' (body s a) n hI' hs' (by simpa using hn)

/-- Every round of the walk meets `C`. -/
def walkMeets (next : σ → α → Option α) (body : σ → α → σ) (C : σ → α → Prop) :
    ℕ → σ → Option α → Option α → Prop
  | 0, _, _, _ => True
  | _ + 1, _, none, _ => True
  | n + 1, s, some a, tmp =>
    C s a ∧ (let s' := body s a
      walkMeets next body C n s' tmp (tmp.bind (next s')))

/-- **Walk rule**, for an invariant on the state and the two pointers. -/
theorem walk_rule {J : σ → Option α → Option α → Prop} {C : σ → α → Prop}
    (hbody : ∀ s a tmp, J s (some a) tmp → C s a →
      J (body s a) tmp (tmp.bind (next (body s a)))) :
    ∀ (n : ℕ) (s : σ) (el tmp : Option α), J s el tmp → walkMeets next body C n s el tmp →
      ∃ el' tmp', J (walk next body n s el tmp) el' tmp' := by
  intro n
  induction n with
  | zero => intro s el tmp hJ _; exact ⟨el, tmp, hJ⟩
  | succ n ih =>
    intro s el tmp hJ hC
    cases el with
    | none => exact ⟨none, tmp, hJ⟩
    | some a => exact ih _ _ _ (hbody s a tmp hJ hC.1) hC.2

/-- The walk rule for an invariant on the state alone. -/
theorem walk_invariant {I : σ → Prop} (hbody : ∀ s a, I s → I (body s a)) :
    ∀ (n : ℕ) (s : σ) (el tmp : Option α), I s → I (walk next body n s el tmp) := by
  intro n
  induction n with
  | zero => intro s el tmp hs; exact hs
  | succ n ih =>
    intro s el tmp hs
    cases el with
    | none => exact hs
    | some a => exact ih _ _ _ (hbody s a hs)

/-- **Enough rounds.** If pointers only lead forward and stay below `N`, then any
number of rounds from `N - a` on gives the same result. -/
theorem walk_fuel {next : σ → ℕ → Option ℕ} {body : σ → ℕ → σ} {N : ℕ} (I : σ → Prop)
    (hbody : ∀ s a, I s → I (body s a)) (hnext : ∀ s a b, I s → next s a = some b → a < b ∧ b < N) :
    ∀ (n m : ℕ) (s : σ) (a : ℕ) (tmp : Option ℕ), I s → (∀ b, tmp = some b → a < b ∧ b < N) →
      N - a ≤ n → N - a ≤ m → a < N →
      walk next body n s (some a) tmp = walk next body m s (some a) tmp := by
  intro n
  induction n with
  | zero => intro m s a tmp _ _ hn _ ha; omega
  | succ n ih =>
    intro m s a tmp hI htmp hn hm ha
    obtain ⟨m, rfl⟩ : ∃ k, m = k + 1 := ⟨m - 1, by omega⟩
    simp only [walk]
    cases tmp with
    | none => simp
    | some b =>
      obtain ⟨hab, hb⟩ := htmp b rfl
      exact ih m _ b _ (hbody s a hI) (fun c hc => hnext _ b c (hbody s a hI) hc) (by omega)
        (by omega) hb

end Walk
