import Qsf.Spec.TableExt

/-!
# Heaps: what an operation changes, and what it leaves

* `Extends`: the tables of one heap are there in another, unchanged. Then their metafields and
  metatables are the same (`Extends.metafield`, `Extends.getmetatable`).
* `Built`: what a loop over entries has put into a table (`Built.insert`).
-/

set_option autoImplicit false

namespace Qsf

open ObjectGraph (Value)

variable {h h' h'' : LuaHeap} {k v : HeapValue} {t o x n : ℕ}

/-! ## References -/

theorem RefBelow.ref {r : ℕ} (hr : RefBelow n (.ref r)) : r < n := hr

namespace LuaHeap

theorem mem_entries (hk : h.rawget t k = some v) :
    (⟨k, v⟩ : Σ _ : HeapValue, HeapValue) ∈ (h.tables t).entries.entries :=
  AList.mem_lookup_iff.1 hk

/-- A value in a table refers to a table that exists. -/
theorem Closed.rawget (hc : h.Closed) (ht : t < h.count) (hk : h.rawget t k = some v) : RefBelow h.count v :=
  (hc.entries t ht _ (mem_entries hk)).2

/-! ## Operations -/

theorem setTable_self (o : TableObject) : (h.setTable t o).tables t = o := Function.update_self ..

theorem setTable_ne {o : TableObject} (hx : x ≠ t) : (h.setTable t o).tables x = h.tables x :=
  Function.update_of_ne hx ..

theorem newTable_self : h.newTable.tables h.count = ⟨∅, none⟩ := Function.update_self ..

theorem newTable_ne (hx : x < h.count) : h.newTable.tables x = h.tables x := Function.update_of_ne hx.ne ..

theorem rawget_rawset_self : (h.rawset t k v).rawget t k = some v := by
  rw [LuaHeap.rawget, rawset, setTable_self]
  exact AList.lookup_insert _

theorem rawget_rawset_ne {k' : HeapValue} (hk : k' ≠ k) : (h.rawset t k v).rawget t k' = h.rawget t k' := by
  rw [LuaHeap.rawget, rawset, setTable_self]
  exact AList.lookup_insert_ne hk

theorem metatable_rawset (x : ℕ) : ((h.rawset t k v).tables x).metatable = (h.tables x).metatable := by
  by_cases hx : x = t
  · rw [hx, rawset, setTable_self]
  · rw [rawset, setTable_ne hx]

theorem settable_eq (hm : h.metafield t NEWINDEX = none) : h.settable t k v = .ok (h.rawset t k v) := by
  rw [settable, if_neg]
  rintro ⟨-, hne⟩
  exact hne hm

theorem metafield_none (hm : (h.tables t).metatable = none) : h.metafield t k = none := by
  rw [metafield, hm]
  rfl

theorem pairs_eq (hm : h.metafield t PAIRS = none) (traverse : LuaHeap → ℕ → Except LuaStop Entries) :
    h.pairs traverse t = .ok (h.tables t).entries := by rw [LuaHeap.pairs, if_pos hm]

/-- A metatable is set where there was none. -/
theorem setmetatable_eq (hm : (h.tables t).metatable = none) (m : Option ℕ) :
    h.setmetatable t (m.map .ref) = .ok (h.setTable t { h.tables t with metatable := m }) := by
  cases m with
  | none => exact if_pos (metafield_none hm)
  | some m => exact if_pos (metafield_none hm)

/-- Nothing but a table or `nil` is set. -/
theorem setmetatable_ok {a : Option HeapValue} (hset : h.setmetatable t a = .ok h') :
    ∃ m : Option ℕ, a = m.map .ref ∧ h' = h.setTable t { h.tables t with metatable := m } := by
  unfold setmetatable at hset
  cases a with
  | none =>
    simp only at hset
    split at hset
    · cases hset
      exact ⟨none, rfl, rfl⟩
    · cases hset
  | some v =>
    cases v with
    | plain a => cases hset
    | ref m =>
      simp only at hset
      split at hset
      · cases hset
        exact ⟨some m, rfl, rfl⟩
      · cases hset

theorem rawget_setMetatable (m : Option ℕ) :
    (h.setTable t { h.tables t with metatable := m }).rawget t = h.rawget t := by
  unfold LuaHeap.rawget
  rw [setTable_self]

/-! ## Heaps with more tables -/

/-- The tables of `h` are there in `h'`, unchanged. -/
def Extends (h h' : LuaHeap) : Prop := h.count ≤ h'.count ∧ ∀ x, x < h.count → h'.tables x = h.tables x

theorem Extends.refl (h : LuaHeap) : h.Extends h := ⟨le_refl _, fun _ _ => rfl⟩

theorem Extends.trans (hext : h.Extends h') (hext' : h'.Extends h'') : h.Extends h'' :=
  ⟨hext.1.trans hext'.1, fun x hx => (hext'.2 x (hx.trans_le hext.1)).trans (hext.2 x hx)⟩

theorem Extends.setTable (hext : h.Extends h') (ho : h.count ≤ o) (obj : TableObject) :
    h.Extends (h'.setTable o obj) :=
  ⟨hext.1, fun x hx => (setTable_ne (hx.trans_le ho).ne).trans (hext.2 x hx)⟩

theorem extends_newTable (h : LuaHeap) : h.Extends h.newTable := ⟨Nat.le_succ _, fun _ => newTable_ne⟩

theorem Extends.rawget (hext : h.Extends h') (hx : x < h.count) : h'.rawget x = h.rawget x := by
  unfold LuaHeap.rawget
  rw [hext.2 x hx]

/-- A metatable is a table that exists. -/
theorem Extends.metafield (hext : h.Extends h') (hc : h.Closed) (hx : x < h.count) (k : HeapValue) :
    h'.metafield x k = h.metafield x k := by
  unfold LuaHeap.metafield
  rw [hext.2 x hx]
  cases hm : (h.tables x).metatable with
  | none => rfl
  | some m => exact congrFun (hext.rawget (hc.metatable x hx m hm)) k

theorem Extends.getmetatable (hext : h.Extends h') (hc : h.Closed) (hx : x < h.count) :
    h'.getmetatable x = h.getmetatable x := by
  unfold LuaHeap.getmetatable
  rw [hext.2 x hx]
  cases hm : (h.tables x).metatable with
  | none => rfl
  | some m => rw [Option.map_some, Option.map_some, hext.rawget (hc.metatable x hx m hm)]

end LuaHeap

/-! ## Filling a table -/

section

variable {R : HeapValue → HeapValue → Prop} {done : List (Σ _ : HeapValue, HeapValue)}
  {e : Σ _ : HeapValue, HeapValue} {get : HeapValue → Option HeapValue} {b : HeapValue}

/-- The entries that are done are in the table, up to `R`. -/
def Built (R : HeapValue → HeapValue → Prop) (done : List (Σ _ : HeapValue, HeapValue))
    (get : HeapValue → Option HeapValue) : Prop :=
  ∀ k, Option.Rel R (done.dlookup k) (get k)

/-- **A key comes once.** -/
theorem Built.insert (hb : Built R done (h.rawget o)) {l : List (Σ _ : HeapValue, HeapValue)}
    (hnd : l.NodupKeys) (hpre : done ++ [e] <+: l) (hr : R e.2 b) : Built R (done ++ [e]) ((h.rawset o e.1 b).rawget o) := by
  have hnew : done.dlookup e.1 = none := by
    have hkeys : (done ++ [e]).NodupKeys := hnd.sublist hpre.sublist
    rw [List.dlookup_eq_none]
    intro hmem
    rw [List.NodupKeys, List.keys_append] at hkeys
    exact List.disjoint_of_nodup_append hkeys hmem (List.mem_singleton.2 rfl)
  intro k
  rw [List.dlookup_append]
  by_cases hk : k = e.1
  · subst hk
    rw [hnew, LuaHeap.rawget_rawset_self, Option.none_or, List.dlookup_cons_eq]
    exact .some hr
  · rw [LuaHeap.rawget_rawset_ne hk, List.dlookup_cons_ne _ _ hk, List.dlookup_nil, Option.or_none]
    exact hb k

end

end Qsf
