import Mathlib.Data.List.Nodup
import Mathlib.Tactic

/-!
# Numbered references with a free list

A pool hands out numbers for values and takes them back: `take` uses the number that
was given back last, or a new one; `give` puts a number on the free list. Giving back a
number that is not in use is outside the contract; the pool then records a fault.

* `RefPool.Sound`: numbers on the free list are not in use, and none is there twice.
* `Sound.take`, `take_free`, `take_keeps`: the number handed out was free, and denotes the
  value now; the numbers in use denote what they did.
* `Sound.give`: a number in use may be given back.
-/

set_option autoImplicit false

universe u

/-- `slot r` is the value behind the number `r`, `none` when `r` is not in use. -/
structure RefPool (α : Type u) where
  slot : ℕ → Option α
  free : List ℕ
  next : ℕ
  fault : Bool

namespace RefPool

variable {α : Type u}

/-- A pool whose first number will be `n`. -/
def init (n : ℕ) : RefPool α := ⟨fun _ => none, [], n, false⟩

/-- The number for the next value. -/
def take (p : RefPool α) (v : α) : ℕ × RefPool α :=
  match p.free with
  | r :: free => (r, { p with slot := Function.update p.slot r (some v), free := free })
  | [] => (p.next, { p with slot := Function.update p.slot p.next (some v), next := p.next + 1 })

/-- Take back a number. -/
def give (p : RefPool α) (r : ℕ) : RefPool α :=
  { p with
    slot := Function.update p.slot r none
    free := r :: p.free
    fault := p.fault || (p.slot r).isNone }

/-- The free list is in order. -/
structure Sound (p : RefPool α) : Prop where
  free : ∀ r ∈ p.free, p.slot r = none ∧ r < p.next
  nodup : p.free.Nodup
  above : ∀ r, p.next ≤ r → p.slot r = none

variable {p : RefPool α} {v u : α} {r k : ℕ}

theorem sound_init (n : ℕ) : (init n : RefPool α).Sound :=
  ⟨fun _ h => absurd h List.not_mem_nil, List.nodup_nil, fun _ _ => rfl⟩

/-- **The number handed out was free.** -/
theorem take_free (h : p.Sound) : p.slot (p.take v).1 = none := by
  unfold take
  split
  · rename_i r free hfree
    exact (h.free r (by rw [hfree]; exact List.mem_cons_self)).1
  · exact h.above p.next (le_refl _)

/-- The number handed out denotes the value, all others what they did. -/
theorem take_slot : (p.take v).2.slot k = if k = (p.take v).1 then some v else p.slot k := by
  unfold take
  split <;> exact Function.update_apply ..

/-- It was not in use. -/
theorem ne_take (h : p.Sound) (hk : p.slot k = some u) : k ≠ (p.take v).1 := by
  rintro rfl
  rw [take_free h] at hk
  cases hk

theorem take_keeps (h : p.Sound) (hk : p.slot k = some u) : (p.take v).2.slot k = some u := by
  rw [take_slot, if_neg (ne_take h hk), hk]

@[simp] theorem take_fault : (p.take v).2.fault = p.fault := by
  unfold take
  split <;> rfl

theorem Sound.take (h : p.Sound) : (p.take v).2.Sound := by
  unfold RefPool.take
  split
  · rename_i r free hfree
    have hnd := h.nodup
    rw [hfree, List.nodup_cons] at hnd
    have hr := h.free r (by rw [hfree]; exact List.mem_cons_self)
    refine ⟨?_, hnd.2, ?_⟩
    · intro k hk
      have hk' := h.free k (by rw [hfree]; exact List.mem_cons_of_mem _ hk)
      have hne : k ≠ r := fun e => hnd.1 (e ▸ hk)
      exact ⟨(Function.update_of_ne hne ..).trans hk'.1, hk'.2⟩
    · intro k hk
      have hne : k ≠ r := fun e => absurd hr.2 (not_lt.2 (e ▸ hk))
      exact (Function.update_of_ne hne ..).trans (h.above k hk)
  · rename_i hfree
    refine ⟨?_, by rw [hfree]; exact List.nodup_nil, ?_⟩
    · intro k hk
      rw [hfree] at hk
      exact absurd hk List.not_mem_nil
    · intro k hk
      have hk' : p.next + 1 ≤ k := hk
      have hne : k ≠ p.next := by omega
      exact (Function.update_of_ne hne ..).trans (h.above k (by omega))

theorem give_slot : (p.give r).slot k = if k = r then none else p.slot k :=
  Function.update_apply ..

theorem give_fault (h : p.slot r = some v) : (p.give r).fault = p.fault := by
  simp [give, h]

/-- **A number in use may be given back.** -/
theorem Sound.give (h : p.Sound) (hr : p.slot r = some v) : (p.give r).Sound := by
  have hlt : r < p.next := by
    by_contra hge
    rw [h.above r (not_lt.1 hge)] at hr
    cases hr
  have hout : r ∉ p.free := by
    intro hin
    rw [(h.free r hin).1] at hr
    cases hr
  refine ⟨?_, List.nodup_cons.2 ⟨hout, h.nodup⟩, ?_⟩
  · intro k hk
    rw [give_slot]
    rcases List.mem_cons.1 hk with rfl | hk
    · exact ⟨if_pos rfl, hlt⟩
    · have hk' := h.free k hk
      refine ⟨?_, hk'.2⟩
      split
      · rfl
      · exact hk'.1
  · intro k hk
    rw [give_slot]
    split
    · rfl
    · exact h.above k hk

end RefPool
