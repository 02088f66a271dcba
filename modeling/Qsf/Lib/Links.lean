import Qsf.Lib.Intrusive

/-!
# Doubly linked lists in memory

The links of all elements together, as a program stores them; a list is what they say from its
first element on.

* `DLinks.Seg`: the elements of a list are linked both ways, between the pointers before and
  behind it. `seg_append` cuts it, `Seg.congr` is its frame.
* `unlink`, `pushFront`, `pushBack`: the three surgeries, what each does to a list, and which
  links it leaves alone.
* `Seg.next_eq`: the stored pointers are those of the list.
* `Lists`: several lists in one memory of links. A surgery on one of them leaves the others as
  they are (`Lists.pushFront`, `Lists.unlink`).
-/

set_option autoImplicit false

universe u v

/-- The links of every element. -/
structure DLinks (α : Type u) where
  prev : α → Option α
  next : α → Option α

namespace DLinks

variable {α : Type u} [DecidableEq α]

def setPrev (L : DLinks α) (a : α) (p : Option α) : DLinks α := { L with prev := Function.update L.prev a p }

def setNext (L : DLinks α) (a : α) (q : Option α) : DLinks α := { L with next := Function.update L.next a q }

/-- Link the neighbours of `a` with each other; `a` keeps its own links. -/
def unlink (L : DLinks α) (a : α) : DLinks α :=
  let L := match L.prev a with
    | some p => L.setNext p (L.next a)
    | none => L
  match L.next a with
  | some n => L.setPrev n (L.prev a)
  | none => L

/-- Put `a` before the list whose first element is `head`. -/
def pushFront (L : DLinks α) (head : Option α) (a : α) : DLinks α :=
  let L := (L.setNext a head).setPrev a none
  match head with
  | some h => L.setPrev h (some a)
  | none => L

/-- Put `a` behind the list whose last element is `tail`. -/
def pushBack (L : DLinks α) (tail : Option α) (a : α) : DLinks α :=
  let L := L.setNext a none
  match tail with
  | some t => (L.setNext t (some a)).setPrev a (some t)
  | none => L.setPrev a none

variable {L L' : DLinks α} {p q : Option α} {l m : List α} {a b : α}

@[simp] theorem setPrev_next (p : Option α) : (L.setPrev a p).next = L.next := rfl

@[simp] theorem setNext_prev (q : Option α) : (L.setNext a q).prev = L.prev := rfl

@[simp] theorem setPrev_self (p : Option α) : (L.setPrev a p).prev a = p := Function.update_self ..

@[simp] theorem setNext_self (q : Option α) : (L.setNext a q).next a = q := Function.update_self ..

theorem setPrev_ne (p : Option α) (h : b ≠ a) : (L.setPrev a p).prev b = L.prev b :=
  Function.update_of_ne h _ _

theorem setNext_ne (q : Option α) (h : b ≠ a) : (L.setNext a q).next b = L.next b :=
  Function.update_of_ne h _ _

/-! ## Segments -/

/-- The elements of `l` are linked both ways, `p` is before the first and `q` behind the last. -/
def Seg (L : DLinks α) (p : Option α) : List α → Option α → Prop
  | [], _ => True
  | a :: l, q => L.prev a = p ∧ L.next a = l.head?.or q ∧ L.Seg (some a) l q

omit [DecidableEq α] in
theorem seg_cons : L.Seg p (a :: l) q ↔ L.prev a = p ∧ L.next a = l.head?.or q ∧ L.Seg (some a) l q :=
  Iff.rfl

omit [DecidableEq α] in
/-- **Cutting a segment.** -/
theorem seg_append : L.Seg p (l ++ m) q ↔ L.Seg p l (m.head?.or q) ∧ L.Seg (l.getLast?.or p) m q := by
  induction l generalizing p with
  | nil => simp [Seg]
  | cons a l ih =>
    have hlast : (a :: l).getLast?.or p = l.getLast?.or (some a) := by
      rw [List.getLast?_cons]
      cases l.getLast? <;> rfl
    rw [List.cons_append, seg_cons, seg_cons, ih, hlast, List.head?_append, Option.or_assoc]
    tauto

omit [DecidableEq α] in
/-- **Frame.** A segment does not depend on the links of other elements. -/
theorem Seg.congr (h : L.Seg p l q) (hprev : ∀ a ∈ l, L'.prev a = L.prev a)
    (hnext : ∀ a ∈ l, L'.next a = L.next a) : L'.Seg p l q := by
  induction l generalizing p with
  | nil => trivial
  | cons a l ih =>
    obtain ⟨hp, hn, hl⟩ := h
    refine ⟨?_, ?_, ih hl ?_ ?_⟩
    · rw [hprev a List.mem_cons_self, hp]
    · rw [hnext a List.mem_cons_self, hn]
    · exact fun b hb => hprev b (List.mem_cons_of_mem a hb)
    · exact fun b hb => hnext b (List.mem_cons_of_mem a hb)

omit [DecidableEq α] in
/-- The links around an element of a list. -/
theorem Seg.at (h : L.Seg none (l ++ a :: m) none) :
    L.prev a = l.getLast? ∧ L.next a = m.head? := by
  obtain ⟨-, hp, hn, -⟩ := seg_append.1 h
  rw [Option.or_none] at hp hn
  exact ⟨hp, hn⟩

/-- **The stored next pointers are those of the list.** -/
theorem Seg.next_eq (h : L.Seg none l none) (hn : l.Nodup) (ha : a ∈ l) : L.next a = succIn l a := by
  obtain ⟨pre, suf, rfl⟩ := List.append_of_mem ha
  have hpre : a ∉ pre := fun e => (List.nodup_append.1 hn).2.2 a e a List.mem_cons_self rfl
  rw [h.at.2, succIn_append hpre]

omit [DecidableEq α] in
/-- Behind the last element is `q'` instead. -/
theorem Seg.setLast {q' : Option α} (h : L.Seg p l q) (hlast : ∀ t, l.getLast? = some t → L'.next t = q')
    (hprev : ∀ a ∈ l, L'.prev a = L.prev a) (hnext : ∀ a ∈ l, l.getLast? ≠ some a → L'.next a = L.next a)
    (hn : l.Nodup) : L'.Seg p l q' := by
  rcases List.eq_nil_or_concat l with rfl | ⟨l, t, rfl⟩
  · trivial
  · rw [List.concat_eq_append] at *
    have ht : t ∉ l := fun e => (List.nodup_append.1 hn).2.2 t e t (List.mem_singleton.2 rfl) rfl
    obtain ⟨hl, hp, -, -⟩ := seg_append.1 h
    refine seg_append.2 ⟨hl.congr ?_ ?_, ?_, ?_, trivial⟩
    · exact fun b hb => hprev b (List.mem_append_left _ hb)
    · intro b hb
      refine hnext b (List.mem_append_left _ hb) ?_
      rw [List.getLast?_concat]
      intro e
      exact ht (Option.some.inj e ▸ hb)
    · rw [hprev t (List.mem_append_right _ (List.mem_singleton.2 rfl)), hp]
    · rw [hlast t List.getLast?_concat]
      rfl

omit [DecidableEq α] in
/-- Before the first element is `p'` instead. -/
theorem Seg.setFirst {p' : Option α} (h : L.Seg p l q) (hfirst : ∀ t, l.head? = some t → L'.prev t = p')
    (hnext : ∀ a ∈ l, L'.next a = L.next a) (hprev : ∀ a ∈ l, l.head? ≠ some a → L'.prev a = L.prev a)
    (hn : l.Nodup) : L'.Seg p' l q := by
  cases l with
  | nil => trivial
  | cons t l =>
    have ht : t ∉ l := (List.nodup_cons.1 hn).1
    obtain ⟨-, hq, hl⟩ := h
    refine ⟨hfirst t rfl, ?_, hl.congr ?_ ?_⟩
    · rw [hnext t List.mem_cons_self, hq]
    · intro b hb
      refine hprev b (List.mem_cons_of_mem t hb) ?_
      intro e
      exact ht (Option.some.inj e ▸ hb)
    · exact fun b hb => hnext b (List.mem_cons_of_mem t hb)

/-! ## The surgeries -/

theorem unlink_next : (L.unlink a).next b = if L.prev a = some b then L.next a else L.next b := by
  have hstep : ∀ L' : DLinks α, (match L'.next a with
      | some n => L'.setPrev n (L'.prev a)
      | none => L').next = L'.next := by
    intro L'
    cases L'.next a <;> rfl
  rw [unlink]
  simp only [hstep]
  cases hp : L.prev a with
  | none => rw [if_neg (by simp)]
  | some p =>
    by_cases hb : b = p
    · subst hb
      rw [if_pos rfl, setNext_self]
    · rw [if_neg (fun e => hb (Option.some.inj e).symm), setNext_ne _ hb]

theorem unlink_prev (h : L.prev a ≠ some a) :
    (L.unlink a).prev b = if L.next a = some b then L.prev a else L.prev b := by
  have hset : ∀ (L' : DLinks α), L'.prev = L.prev → L'.next a = L.next a →
      (match L'.next a with
        | some n => L'.setPrev n (L'.prev a)
        | none => L').prev b = if L.next a = some b then L.prev a else L.prev b := by
    intro L' hprev hnext
    rw [hnext]
    cases hn : L.next a with
    | none => rw [if_neg (by simp), hprev]
    | some n =>
      by_cases hb : b = n
      · subst hb
        rw [if_pos rfl, setPrev_self, hprev]
      · rw [if_neg (fun e => hb (Option.some.inj e).symm), setPrev_ne _ hb, hprev]
  rw [unlink]
  cases hp : L.prev a with
  | none =>
    have hgoal := hset L rfl rfl
    rw [hp] at hgoal
    simpa only [hp] using hgoal
  | some p =>
    have hne : a ≠ p := by
      rintro rfl
      exact h hp
    have hgoal := hset (L.setNext p (L.next a)) rfl (setNext_ne _ hne)
    rw [hp] at hgoal
    simpa only [setNext_prev, hp] using hgoal

theorem pushFront_next {head : Option α} : (L.pushFront head a).next b = if b = a then head else L.next b := by
  have hnext : (L.pushFront head a).next = (L.setNext a head).next := by
    cases head <;> rfl
  rw [hnext]
  by_cases hb : b = a
  · subst hb
    rw [if_pos rfl, setNext_self]
  · rw [if_neg hb, setNext_ne _ hb]

theorem pushFront_prev {head : Option α} : (L.pushFront head a).prev b =
    if head = some b then some a else if b = a then none else L.prev b := by
  have hself : ((L.setNext a head).setPrev a none).prev b = if b = a then none else L.prev b := by
    by_cases hb : b = a
    · subst hb
      rw [if_pos rfl, setPrev_self]
    · rw [if_neg hb, setPrev_ne _ hb, setNext_prev]
  cases head with
  | none => rw [if_neg (by simp), ← hself]; rfl
  | some h =>
    by_cases hb : b = h
    · subst hb
      rw [if_pos rfl]
      exact setPrev_self _
    · rw [if_neg (fun e => hb (Option.some.inj e).symm), ← hself]
      exact setPrev_ne _ hb

theorem pushBack_prev {tail : Option α} : (L.pushBack tail a).prev b = if b = a then tail else L.prev b := by
  by_cases hb : b = a
  · subst hb
    rw [if_pos rfl]
    cases tail <;> exact setPrev_self _
  · rw [if_neg hb]
    cases tail <;> exact setPrev_ne _ hb

theorem pushBack_next {tail : Option α} : (L.pushBack tail a).next b =
    if tail = some b then some a else if b = a then none else L.next b := by
  have hself : (L.setNext a none).next b = if b = a then none else L.next b := by
    by_cases hb : b = a
    · subst hb
      rw [if_pos rfl, setNext_self]
    · rw [if_neg hb, setNext_ne _ hb]
  cases tail with
  | none => rw [if_neg (by simp), ← hself]; rfl
  | some t =>
    by_cases hb : b = t
    · subst hb
      rw [if_pos rfl]
      exact setNext_self _
    · rw [if_neg (fun e => hb (Option.some.inj e).symm), ← hself]
      exact setNext_ne _ hb

/-- **Unlinking an element of a list.** -/
theorem Seg.unlink (h : L.Seg none (l ++ a :: m) none) (hn : (l ++ a :: m).Nodup) :
    (L.unlink a).Seg none (l ++ m) none := by
  obtain ⟨hp, hq⟩ := h.at
  obtain ⟨hl, ham, hdisj⟩ := List.nodup_append.1 hn
  obtain ⟨ha, hm⟩ := List.nodup_cons.1 ham
  have hal : a ∉ l := fun e => hdisj a e a List.mem_cons_self rfl
  have hlm : ∀ b ∈ l, b ∉ m := fun b hb hbm => hdisj b hb b (List.mem_cons_of_mem a hbm) rfl
  have hself : L.prev a ≠ some a := by
    rw [hp]
    exact fun e => hal (List.mem_of_getLast? e)
  obtain ⟨hsl, -, -, hsm⟩ := seg_append.1 h
  -- the links of the elements before `a`, and of those behind it
  have hlprev : ∀ b ∈ l, (L.unlink a).prev b = L.prev b := by
    intro b hb
    rw [unlink_prev hself, hq, if_neg]
    intro e
    exact hlm b hb (List.mem_of_mem_head? e)
  have hmnext : ∀ b ∈ m, (L.unlink a).next b = L.next b := by
    intro b hb
    rw [unlink_next, hp, if_neg fun e => hlm b (List.mem_of_getLast? e) hb]
  refine seg_append.2 ⟨hsl.setLast ?_ hlprev ?_ hl, hsm.setFirst ?_ hmnext ?_ hm⟩
  · intro t ht
    rw [unlink_next, hp, if_pos ht, hq, Option.or_none]
  · intro b _ hb
    rw [unlink_next, hp, if_neg hb]
  · intro t ht
    rw [unlink_prev hself, hq, if_pos ht, hp, Option.or_none]
  · intro b _ hb
    rw [unlink_prev hself, hq, if_neg hb]

/-- **Putting an element in front.** -/
theorem Seg.pushFront (h : L.Seg none l none) (hn : l.Nodup) (ha : a ∉ l) :
    (L.pushFront l.head? a).Seg none (a :: l) none := by
  have hne : ∀ b ∈ l, b ≠ a := fun b hb e => ha (e ▸ hb)
  refine ⟨?_, ?_, h.setFirst ?_ ?_ ?_ hn⟩
  · rw [pushFront_prev, if_neg, if_pos rfl]
    intro e
    exact ha (List.mem_of_mem_head? e)
  · rw [pushFront_next, if_pos rfl, Option.or_none]
  · intro t ht
    rw [pushFront_prev, if_pos ht]
  · intro b hb
    rw [pushFront_next, if_neg (hne b hb)]
  · intro b hb hhead
    rw [pushFront_prev, if_neg hhead, if_neg (hne b hb)]

/-- **Putting an element behind.** -/
theorem Seg.pushBack (h : L.Seg none l none) (hn : l.Nodup) (ha : a ∉ l) :
    (L.pushBack l.getLast? a).Seg none (l ++ [a]) none := by
  have hne : ∀ b ∈ l, b ≠ a := fun b hb e => ha (e ▸ hb)
  refine seg_append.2 ⟨h.setLast ?_ ?_ ?_ hn, ?_, ?_, trivial⟩
  · intro t ht
    rw [pushBack_next, if_pos ht]
    rfl
  · intro b hb
    rw [pushBack_prev, if_neg (hne b hb)]
  · intro b hb hlast
    rw [pushBack_next, if_neg hlast, if_neg (hne b hb)]
  · rw [pushBack_prev, if_pos rfl, Option.or_none]
  · rw [pushBack_next, if_neg fun e => ha (List.mem_of_getLast? e), if_pos rfl]
    rfl

/-- **Frame of `unlink`.** The links of a list without `a` and its neighbours. -/
theorem Seg.unlink_frame {k : List α} (h : L.Seg p k q) (ha : L.Seg none (l ++ a :: m) none)
    (hself : a ∉ l) (hdisj : ∀ b ∈ k, b ∉ l ++ a :: m) : (L.unlink a).Seg p k q := by
  obtain ⟨hp, hq⟩ := ha.at
  have hne : L.prev a ≠ some a := by
    rw [hp]
    exact fun e => hself (List.mem_of_getLast? e)
  refine h.congr ?_ ?_
  · intro b hb
    rw [unlink_prev hne, hq, if_neg]
    intro e
    exact hdisj b hb (List.mem_append_right _ (List.mem_cons_of_mem a (List.mem_of_mem_head? e)))
  · intro b hb
    rw [unlink_next, hp, if_neg]
    intro e
    exact hdisj b hb (List.mem_append_left _ (List.mem_of_getLast? e))

/-- **Frame of `pushFront`.** -/
theorem Seg.pushFront_frame {k : List α} (h : L.Seg p k q) (hdisj : ∀ b ∈ k, b ≠ a ∧ b ∉ l) :
    (L.pushFront l.head? a).Seg p k q := by
  refine h.congr ?_ ?_
  · intro b hb
    rw [pushFront_prev, if_neg, if_neg (hdisj b hb).1]
    intro e
    exact (hdisj b hb).2 (List.mem_of_mem_head? e)
  · intro b hb
    rw [pushFront_next, if_neg (hdisj b hb).1]

/-! ## Several lists in one memory -/

/-- Each list is linked, and no two have an element in common. -/
structure Lists {ι : Type v} (L : DLinks α) (C : ι → List α) : Prop where
  seg : ∀ b, L.Seg none (C b) none
  nodup : ∀ b, (C b).Nodup
  apart : ∀ {b c a}, a ∈ C b → a ∈ C c → b = c

namespace Lists

variable {ι : Type v} [DecidableEq ι] {C : ι → List α} {b : ι}

theorem pushFront (h : L.Lists C) (ha : ∀ c, a ∉ C c) (b : ι) :
    (L.pushFront (C b).head? a).Lists (Function.update C b (a :: C b)) := by
  have hmem : ∀ c x, x ∈ Function.update C b (a :: C b) c → x ∈ C c ∨ x = a ∧ c = b := by
    intro c x hx
    by_cases hc : c = b
    · subst hc
      rw [Function.update_self] at hx
      rcases List.mem_cons.1 hx with rfl | hx
      · exact .inr ⟨rfl, rfl⟩
      · exact .inl hx
    · rw [Function.update_of_ne hc] at hx
      exact .inl hx
  refine ⟨?_, ?_, ?_⟩
  · intro c
    by_cases hc : c = b
    · subst hc
      rw [Function.update_self]
      exact (h.seg c).pushFront (h.nodup c) (ha c)
    · rw [Function.update_of_ne hc]
      refine (h.seg c).pushFront_frame ?_
      intro x hx
      refine ⟨?_, ?_⟩
      · rintro rfl
        exact ha c hx
      · exact fun hb => hc (h.apart hx hb)
  · intro c
    by_cases hc : c = b
    · subst hc
      rw [Function.update_self]
      exact List.nodup_cons.2 ⟨ha c, h.nodup c⟩
    · rw [Function.update_of_ne hc]
      exact h.nodup c
  · intro c d x hc hd
    rcases hmem c x hc with hxc | ⟨rfl, hcb⟩
    · rcases hmem d x hd with hxd | ⟨rfl, -⟩
      · exact h.apart hxc hxd
      · exact absurd hxc (ha c)
    · rcases hmem d x hd with hxd | ⟨-, hdb⟩
      · exact absurd hxd (ha d)
      · rw [hcb, hdb]

theorem unlink (h : L.Lists C) (ha : a ∈ C b) :
    (L.unlink a).Lists (Function.update C b ((C b).erase a)) := by
  obtain ⟨l, m, hb⟩ := List.append_of_mem ha
  have hn : (l ++ a :: m).Nodup := hb ▸ h.nodup b
  have hl : a ∉ l := fun e => (List.nodup_append.1 hn).2.2 a e a List.mem_cons_self rfl
  have hs : L.Seg none (l ++ a :: m) none := hb ▸ h.seg b
  have herase : (C b).erase a = l ++ m := by
    rw [hb, List.erase_append_right _ hl, List.erase_cons_head]
  have hmem : ∀ c x, x ∈ Function.update C b ((C b).erase a) c → x ∈ C c := by
    intro c x hx
    by_cases hc : c = b
    · subst hc
      rw [Function.update_self] at hx
      exact List.mem_of_mem_erase hx
    · rwa [Function.update_of_ne hc] at hx
  refine ⟨?_, ?_, fun hc hd => h.apart (hmem _ _ hc) (hmem _ _ hd)⟩
  · intro c
    by_cases hc : c = b
    · subst hc
      rw [Function.update_self, herase]
      exact hs.unlink hn
    · rw [Function.update_of_ne hc]
      refine (h.seg c).unlink_frame hs hl ?_
      intro x hx hxb
      exact hc (h.apart hx (hb ▸ hxb))
  · intro c
    by_cases hc : c = b
    · subst hc
      rw [Function.update_self]
      exact (h.nodup c).erase a
    · rw [Function.update_of_ne hc]
      exact h.nodup c

end Lists

end DLinks
