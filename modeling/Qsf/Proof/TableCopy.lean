import Qsf.Lib.Loop
import Qsf.Proof.LuaHeap

/-!
# `table.copy` copies too deep

`copyTable` calls itself on each value that is a table, so a nested table comes back as another
one, if at all.

* `copyTable_spec`: what `copyTable` has done when it returns, by induction on the depth.
* `shallow_iff`: when `table.copy` is the shallow copy that its comment says.
-/

set_option autoImplicit false

namespace Qsf

open ObjectGraph (Value)
open LuaHeap (Extends)

variable {traverse : LuaHeap → ℕ → Except LuaStop Entries} {h h' : LuaHeap} {es : Entries} {nometa : Bool}
  {t u n fuel : ℕ}

/-! ## `copyTable` -/

/-- A value, or for a table another one that did not exist. -/
inductive Deep (n : ℕ) : HeapValue → HeapValue → Prop
  | plain (a : Scalar) : Deep n (.plain a) (.plain a)
  | ref (r : ℕ) {u : ℕ} (hu : n ≤ u) : Deep n (.ref r) (.ref u)

/-- A table made of the entries `es`. -/
structure DeepCopy (h h' : LuaHeap) (es : Entries) (u : ℕ) : Prop where
  ref : u = h.count
  count : h.count < h'.count
  extend : h.Extends h'
  metatable : (h'.tables u).metatable = none
  entries : Built (Deep h.count) es.entries (h'.rawget u)

/-- What holds when some of the entries are done. -/
structure CopyLoop (h : LuaHeap) (done : List (Σ _ : HeapValue, HeapValue)) (h' : LuaHeap) : Prop where
  count : h.count < h'.count
  extend : h.Extends h'
  metatable : (h'.tables h.count).metatable = none
  entries : Built (Deep h.count) done (h'.rawget h.count)

theorem copyLoop_newTable (h : LuaHeap) : CopyLoop h [] h.newTable := by
  refine ⟨Nat.lt_succ_self _, LuaHeap.extends_newTable h, ?_, ?_⟩
  · rw [LuaHeap.newTable_self]
  · intro k
    rw [LuaHeap.rawget, LuaHeap.newTable_self]
    exact .none

variable {done : List (Σ _ : HeapValue, HeapValue)} {e : Σ _ : HeapValue, HeapValue} {b : HeapValue}

theorem CopyLoop.rawset (hl : CopyLoop h done h') (hpre : done ++ [e] <+: es.entries)
    (hb : Deep h.count e.2 b) :
    CopyLoop h (done ++ [e]) (h'.rawset h.count e.1 b) := by
  refine ⟨hl.count, hl.extend.setTable (le_refl _) _, ?_, hl.entries.insert es.nodupKeys hpre hb⟩
  rw [LuaHeap.metatable_rawset]
  exact hl.metatable

theorem CopyLoop.settable (hl : CopyLoop h done h') (k v : HeapValue) :
    h'.settable h.count k v = .ok (h'.rawset h.count k v) :=
  LuaHeap.settable_eq (LuaHeap.metafield_none hl.metatable)

/-- A nested copy leaves the table that is being filled. -/
theorem CopyLoop.nested (hl : CopyLoop h done h') {h'' : LuaHeap} {es' : Entries} (hd : DeepCopy h' h'' es' u) :
    CopyLoop h done h'' := by
  refine ⟨hl.count.trans hd.count, hl.extend.trans hd.extend, ?_, ?_⟩
  · rw [hd.extend.2 _ hl.count]
    exact hl.metatable
  · rw [hd.extend.rawget hl.count]
    exact hl.entries

theorem copyTable_ok {r : ℕ × LuaHeap} : copyTable traverse (fuel + 1) h t = .ok r ↔
    ∃ es, h.newTable.pairs traverse t = .ok es ∧
      ∃ h', es.entries.foldlM (copyEntry (copyTable traverse fuel) h.count) h.newTable = .ok h' ∧
        Except.ok (h.count, h') = (.ok r : Except LuaStop _) := by
  unfold copyTable
  simp only [Loop.bind_eq_ok]

/-- More fuel changes nothing. -/
theorem copyTable_mono {r : ℕ × LuaHeap} (hrun : copyTable traverse fuel h t = .ok r) :
    copyTable traverse (fuel + 1) h t = .ok r := by
  induction fuel generalizing h t r with
  | zero => cases hrun
  | succ fuel ih =>
    obtain ⟨es, hpairs, h', hfold, hend⟩ := copyTable_ok.1 hrun
    refine copyTable_ok.2 ⟨es, hpairs, h', Loop.foldlM_mono ?_ hfold, hend⟩
    rintro h₁ ⟨k, a⟩ h₂ hbody
    cases a with
    | plain a => exact hbody
    | ref v =>
      obtain ⟨⟨u, h₃⟩, hcopy, hset⟩ := Loop.bind_eq_ok.1 hbody
      exact Loop.bind_eq_ok.2 ⟨⟨u, h₃⟩, ih hcopy, hset⟩

/-- **What `copyTable` has done when it returns.** -/
theorem copyTable_spec (hrun : copyTable traverse fuel h t = .ok (u, h')) :
    ∃ es, h.newTable.pairs traverse t = .ok es ∧ DeepCopy h h' es u := by
  induction fuel generalizing h t u h' with
  | zero => cases hrun
  | succ fuel ih =>
    obtain ⟨es, hpairs, h₁, hfold, hend⟩ := copyTable_ok.1 hrun
    cases hend
    have hloop : CopyLoop h es.entries h' := by
      apply Loop.foldlM_partial (CopyLoop h) (copyLoop_newTable h) _ hfold
      rintro done ⟨k, v⟩ h₁ h₂ hpre hl hbody
      cases v with
      | plain a =>
        have hset : h₁.settable h.count k (.plain a) = .ok h₂ := hbody
        rw [hl.settable] at hset
        cases hset
        exact hl.rawset hpre (.plain a)
      | ref r =>
        obtain ⟨⟨u, h₃⟩, hcopy, hset⟩ := Loop.bind_eq_ok.1 hbody
        have hset : h₃.settable h.count k (.ref u) = .ok h₂ := hset
        obtain ⟨es', -, hd⟩ := ih hcopy
        have hl' := hl.nested hd
        rw [hl'.settable] at hset
        cases hset
        apply hl'.rawset hpre
        rw [hd.ref]
        exact .ref r hl.extend.1
    exact ⟨es, hpairs, rfl, hloop.count, hloop.extend, hloop.metatable, hloop.entries⟩

/-- Without nested tables it returns. -/
theorem copyTable_total (hpairs : h.newTable.pairs traverse t = .ok es)
    (hplain : ∀ k r, es.lookup k ≠ some (.ref r)) :
    ∃ h', copyTable traverse 1 h t = .ok (h.count, h') := by
  obtain ⟨h', hfold, -⟩ := Loop.foldlM_total (f := copyEntry (copyTable traverse 0) h.count) (l := es.entries)
    (CopyLoop h) (copyLoop_newTable h) (by
      rintro done ⟨k, v⟩ h₁ hpre hl
      cases v with
      | plain a => exact ⟨_, hl.settable k (.plain a), hl.rawset hpre (.plain a)⟩
      | ref r =>
        have hmem := hpre.subset (List.mem_append_right _ (List.mem_singleton.2 rfl))
        exact absurd (AList.mem_lookup_iff.2 hmem) (hplain k r))
  exact ⟨h', copyTable_ok.2 ⟨es, hpairs, h', hfold, rfl⟩⟩

/-! ## `table.copy` -/

theorem tableCopy_ok {r : ℕ × LuaHeap} : tableCopy traverse h t nometa fuel = .ok r ↔
    ∃ r', copyTable traverse fuel h t = .ok r' ∧
      ∃ h', copyMetatable nometa r'.2 r'.1 t = .ok h' ∧ Except.ok (r'.1, h') = (.ok r : Except LuaStop _) := by
  simp only [tableCopy, Loop.bind_eq_ok]

theorem tableCopy_returns {h₁ : LuaHeap} (hcopy : copyTable traverse fuel h t = .ok (u, h₁))
    (hset : copyMetatable nometa h₁ u t = .ok h') : Returns (tableCopy traverse h t nometa) (u, h') := by
  apply returns_of_mono (n := fuel)
  · intro fuel hrun
    obtain ⟨r, hcopy, hrest⟩ := tableCopy_ok.1 hrun
    exact tableCopy_ok.2 ⟨r, copyTable_mono hcopy, hrest⟩
  · exact tableCopy_ok.2 ⟨_, hcopy, h', hset, rfl⟩

/-- What the comment says of `table.copy`, and that it returns. -/
def Shallow (traverse : LuaHeap → ℕ → Except LuaStop Entries) (h : LuaHeap) (t : ℕ) (nometa : Bool) : Prop :=
  ∃ u h', Returns (tableCopy traverse h t nometa) (u, h') ∧ h.count ≤ u ∧ u < h'.count ∧
    (∀ k, h'.rawget u k = h.rawget t k) ∧
    (h'.tables u).metatable = (if nometa then none else (h.tables t).metatable) ∧
    ∀ x, x < h.count → h'.tables x = h.tables x

/-- The copy has the values of `t` when none of them is a table. -/
theorem DeepCopy.same_iff (hd : DeepCopy h h' es u) (hc : h.Closed) (ht : t < h.count) :
    (∀ k, h'.rawget u k = h.rawget t k) ↔
      (∀ k r, h.rawget t k ≠ some (.ref r)) ∧ ∀ k, es.lookup k = h.rawget t k := by
  constructor
  · intro hsame
    have hboth : ∀ k, (∀ r, h.rawget t k ≠ some (.ref r)) ∧ es.lookup k = h.rawget t k := by
      intro k
      have hrel : Option.Rel (Deep h.count) (es.lookup k) (h'.rawget u k) := hd.entries k
      rw [hsame] at hrel
      generalize es.lookup k = a at hrel
      cases hk : h.rawget t k with
      | none =>
        rw [hk] at hrel
        cases hrel
        exact ⟨by simp, rfl⟩
      | some v =>
        rw [hk] at hrel
        cases hrel with
        | some hav =>
          cases hav with
          | plain a => exact ⟨by simp, rfl⟩
          | ref r hu =>
            -- a table of the heap is not new
            have := (hc.rawget ht hk).ref
            omega
    exact ⟨fun k => (hboth k).1, fun k => (hboth k).2⟩
  · rintro ⟨hplain, hes⟩ k
    have hrel : Option.Rel (Deep h.count) (es.lookup k) (h'.rawget u k) := hd.entries k
    rw [hes] at hrel
    generalize h'.rawget u k = b at hrel
    cases hk : h.rawget t k with
    | none =>
      rw [hk] at hrel
      cases hrel
      rfl
    | some v =>
      rw [hk] at hrel
      cases hrel with
      | some hvb =>
        cases hvb with
        | plain a => rfl
        | ref r _ => exact absurd hk (hplain k r)

/-- The copy is shallow only for such tables. -/
theorem Shallow.inv (hs : Shallow traverse h t nometa) (hc : h.Closed) (ht : t < h.count) :
    (∀ k r, h.rawget t k ≠ some (.ref r)) ∧
      (∃ es, h.newTable.pairs traverse t = .ok es ∧ ∀ k, es.lookup k = h.rawget t k) ∧
      (nometa ∨ h.getmetatable t = (h.tables t).metatable.map .ref) := by
  obtain ⟨u, h', ⟨n, hr⟩, -, -, hsame, hmeta, -⟩ := hs
  obtain ⟨⟨u₁, h₁⟩, hcopy, h₂, hset, hend⟩ := tableCopy_ok.1 (hr n (le_refl n))
  cases hend
  obtain ⟨es, hpairs, hd⟩ := copyTable_spec hcopy
  cases nometa with
  | true =>
    have heq : h₁ = h' := Except.ok.inj hset
    rw [← heq, hd.same_iff hc ht] at hsame
    exact ⟨hsame.1, ⟨es, hpairs, hsame.2⟩, .inl rfl⟩
  | false =>
    obtain ⟨m, hm, rfl⟩ := LuaHeap.setmetatable_ok hset
    rw [LuaHeap.rawget_setMetatable, hd.same_iff hc ht] at hsame
    rw [LuaHeap.setTable_self] at hmeta
    rw [hd.extend.getmetatable hc ht] at hm
    refine ⟨hsame.1, ⟨es, hpairs, hsame.2⟩, .inr ?_⟩
    rw [hm]
    exact congrArg _ hmeta

theorem shallow_of (hc : h.Closed) (ht : t < h.count) (hplain : ∀ k r, h.rawget t k ≠ some (.ref r))
    (hpairs : h.newTable.pairs traverse t = .ok es) (hes : ∀ k, es.lookup k = h.rawget t k)
    (hmeta : nometa ∨ h.getmetatable t = (h.tables t).metatable.map .ref) : Shallow traverse h t nometa := by
  obtain ⟨h₁, hcopy⟩ := copyTable_total hpairs (by
    intro k r
    rw [hes]
    exact hplain k r)
  obtain ⟨es', hpairs', hd⟩ := copyTable_spec hcopy
  obtain rfl : es = es' := Except.ok.inj (hpairs.symm.trans hpairs')
  have hsame := (hd.same_iff hc ht).2 ⟨hplain, hes⟩
  cases nometa with
  | true =>
    exact ⟨h.count, h₁, tableCopy_returns hcopy rfl, le_refl _, hd.count, hsame, hd.metatable,
      hd.extend.2⟩
  | false =>
    have hm := hmeta.resolve_left (by simp)
    rw [← hd.extend.getmetatable hc ht] at hm
    have hset := LuaHeap.setmetatable_eq hd.metatable (h.tables t).metatable
    rw [← hm] at hset
    generalize hh : h₁.setTable h.count { h₁.tables h.count with metatable := (h.tables t).metatable } = h₂
      at hset
    refine ⟨h.count, h₂, tableCopy_returns hcopy hset, le_refl _, hh ▸ hd.count, ?_, ?_, ?_⟩
    · intro k
      rw [← hh, LuaHeap.rawget_setMetatable]
      exact hsame k
    · rw [← hh, LuaHeap.setTable_self]
      rfl
    · rw [← hh]
      exact (hd.extend.setTable (le_refl _) _).2

/-- **When `table.copy` is a shallow copy.** -/
theorem shallow_iff (traverse : LuaHeap → ℕ → Except LuaStop Entries) (h : LuaHeap) (hc : h.Closed) (t : ℕ)
    (ht : t < h.count) (nometa : Bool) :
    Shallow traverse h t nometa ↔
      (∀ k r, h.rawget t k ≠ some (.ref r)) ∧
      (∃ es, h.newTable.pairs traverse t = .ok es ∧ ∀ k, es.lookup k = h.rawget t k) ∧
      (nometa ∨ h.getmetatable t = (h.tables t).metatable.map .ref) := by
  constructor
  · intro hs
    exact hs.inv hc ht
  · rintro ⟨hplain, ⟨es, hpairs, hes⟩, hmeta⟩
    exact shallow_of hc ht hplain hpairs hes hmeta

/-! ## Two tables -/

def keyX : HeapValue := stringKey [ch 'x']

/-- Table 0 has `v` as `x`, and is its own metatable; table 1 is empty. -/
def heapX (v : HeapValue) : LuaHeap where
  count := 2
  tables t := if t = 0 then ⟨AList.singleton keyX v, some 0⟩ else ⟨∅, none⟩

theorem heapX_closed {v : HeapValue} (hv : RefBelow 2 v) : (heapX v).Closed := by
  refine ⟨?_, ?_⟩
  · intro t _ e he
    by_cases ht : t = 0
    · subst ht
      obtain rfl := List.mem_singleton.1 he
      exact ⟨trivial, hv⟩
    · simp [heapX, ht] at he
  · intro t _ m hm
    by_cases ht : t = 0
    · subst ht
      obtain rfl := Option.mem_some_iff.1 hm
      exact Nat.two_pos
    · simp [heapX, ht] at hm

theorem rawget_heapX {v : HeapValue} (hh : h.tables 0 = (heapX v).tables 0) {k : HeapValue} (hk : k ≠ keyX) :
    h.rawget 0 k = none := by
  rw [LuaHeap.rawget, hh]
  show List.dlookup k [(⟨keyX, v⟩ : Σ _ : HeapValue, HeapValue)] = none
  rw [List.dlookup_cons_ne _ _ hk, List.dlookup_nil]

theorem metafield_heapX {v : HeapValue} (hh : h.tables 0 = (heapX v).tables 0) {k : HeapValue} (hk : k ≠ keyX) :
    h.metafield 0 k = none := by
  rw [LuaHeap.metafield, hh]
  exact rawget_heapX hh hk

/-- A table that has itself is copied for ever. -/
theorem copyTable_self (hh : h.tables 0 = (heapX (.ref 0)).tables 0) (h0 : 0 < h.count) :
    copyTable traverse fuel h 0 = .error .unfinished := by
  induction fuel generalizing h with
  | zero => rfl
  | succ fuel ih =>
    have hnew : h.newTable.tables 0 = (heapX (.ref 0)).tables 0 := (LuaHeap.newTable_ne h0).trans hh
    have hpairs : h.newTable.pairs traverse 0 = .ok (AList.singleton keyX (.ref 0)) := by
      rw [LuaHeap.pairs_eq (metafield_heapX hnew (by decide)), hnew]
      rfl
    have hbody : copyEntry (copyTable traverse fuel) h.count h.newTable ⟨keyX, .ref 0⟩
        = .error .unfinished := by
      show (copyTable traverse fuel h.newTable 0 >>= _) = _
      rw [ih hnew (Nat.succ_pos _)]
      rfl
    simp only [copyTable]
    rw [hpairs]
    show ([⟨keyX, .ref 0⟩].foldlM (copyEntry (copyTable traverse fuel) h.count) h.newTable >>= _) = _
    rw [List.foldlM_cons, hbody]
    rfl

def one : HeapValue := .plain ⟨.integer 1, by simp⟩

theorem shallow_iff_flat : Shallow (fun h t => .ok (h.tables t).entries) (heapX one) 0 false := by
  apply (shallow_iff _ (heapX one) (heapX_closed trivial) 0 Nat.two_pos false).2
  have hnew : (heapX one).newTable.tables 0 = (heapX one).tables 0 := LuaHeap.newTable_ne Nat.two_pos
  refine ⟨?_, ⟨AList.singleton keyX one, ?_, fun _ => rfl⟩, .inr ?_⟩
  · intro k r hk
    by_cases hkx : k = keyX
    · subst hkx
      cases hk
    · rw [rawget_heapX rfl hkx] at hk
      cases hk
  · rw [LuaHeap.pairs_eq (metafield_heapX hnew (by decide)), hnew]
    rfl
  · show some (((heapX one).rawget 0 METATABLE).getD (.ref 0)) = some (.ref 0)
    rw [rawget_heapX rfl (by decide)]
    rfl

/-- A table in a table is copied too, and a table in itself for ever. -/
theorem copy_not_shallow :
    ¬ Shallow (fun h t => .ok (h.tables t).entries) (heapX (.ref 1)) 0 false ∧
    ¬ ∃ r, Returns (tableCopy (fun h t => .ok (h.tables t).entries) (heapX (.ref 0)) 0 false) r := by
  constructor
  · intro hs
    exact (hs.inv (heapX_closed Nat.one_lt_two) Nat.two_pos).1 keyX 1 rfl
  · rintro ⟨r, n, hr⟩
    have hrun := hr n (le_refl n)
    simp only [tableCopy] at hrun
    rw [copyTable_self rfl Nat.two_pos] at hrun
    cases hrun

end Qsf
