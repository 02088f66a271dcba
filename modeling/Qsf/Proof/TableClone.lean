import Qsf.Lib.Loop
import Qsf.Proof.LuaHeap

/-!
# `table.clone` copies the graph

The memo `d` has a table before it is filled, so a copy in progress may be incomplete; what is
complete is each table that was added to the memo since.

* `CloneInv`: the memo is one to one between tables that were reached and the new tables, and no
  old table has changed.
* `cloneCopy_spec`: by induction on the fuel, of which as much is enough as there are tables that
  the memo lacks.
* `clone_iso`: at the end the memo is an isomorphism (`ObjectGraph.Copied.iso`).
-/

set_option autoImplicit false

namespace Qsf

open ObjectGraph (Value Reachable Edge CopyOf Copies Grows Copied unmet)
open LuaHeap (Extends)

variable {traverse : LuaHeap → ℕ → Except LuaStop Entries} {h : LuaHeap} {s s' s₁ s₂ s₃ : CloneState}
  {nometa : Bool} {t o u v x y c fuel : ℕ}

/-- The metatables of what is cloned call no metamethod, and are what `getmetatable` returns. -/
structure Clonable (h : LuaHeap) (t : ℕ) (nometa : Bool) : Prop where
  closed : h.Closed
  root : t < h.count
  pairs : ∀ x, Reachable h.rawget t x → h.metafield x PAIRS = none
  newindex : ∀ x, Reachable h.rawget t x → nometa ∨ h.metafield x NEWINDEX = none
  getmetatable : ∀ x, Reachable h.rawget t x → nometa ∨ h.getmetatable x = (h.tables x).metatable.map .ref

/-- What is reachable exists. -/
theorem reachable_lt (hc : h.Closed) (ht : t < h.count) (hx : Reachable h.rawget t x) : x < h.count := by
  induction hx with
  | refl => exact ht
  | tail _ hedge ih =>
    obtain ⟨k, hk⟩ := hedge
    exact (hc.rawget ih hk).ref

theorem Clonable.lt (hok : Clonable h t nometa) (hx : Reachable h.rawget t x) : x < h.count :=
  reachable_lt hok.closed hok.root hx

/-- The memo, the new tables and the old ones. -/
structure CloneInv (h : LuaHeap) (t : ℕ) (nometa : Bool) (s : CloneState) : Prop where
  extend : h.Extends s.heap
  reached : ∀ x c, s.d x = some c → Reachable h.rawget t x
  new : ∀ x c, s.d x = some c → h.count ≤ c ∧ c < s.heap.count
  inj : ∀ x y c, s.d x = some c → s.d y = some c → x = y
  surj : ∀ c, h.count ≤ c → c < s.heap.count → ∃ x, s.d x = some c
  metatable : ∀ x c, s.d x = some c →
    (s.heap.tables c).metatable = if nometa then none else (h.tables x).metatable

theorem cloneInv_init (h : LuaHeap) (t : ℕ) (nometa : Bool) : CloneInv h t nometa ⟨h, fun _ => none⟩ := by
  refine ⟨Extends.refl h, ?_, ?_, ?_, ?_, ?_⟩
  · intro x c hx
    cases hx
  · intro x c hx
    cases hx
  · intro x y c hx
    cases hx
  · intro c hle hlt
    exact absurd hle (not_le.2 hlt)
  · intro x c hx
    cases hx

/-! ## Assigning to a new table -/

theorem CloneInv.metafield (hinv : CloneInv h t nometa s) (hok : Clonable h t nometa) (hx : s.d x = some c) :
    s.heap.metafield c NEWINDEX = none := by
  have hreach := hinv.reached x c hx
  have hmeta := hinv.metatable x c hx
  cases nometa with
  | true => exact LuaHeap.metafield_none hmeta
  | false =>
    have hnone := (hok.newindex x hreach).resolve_left (by simp)
    rw [← hinv.extend.metafield hok.closed (hok.lt hreach)] at hnone
    unfold LuaHeap.metafield at hnone ⊢
    rw [hinv.extend.2 x (hok.lt hreach)] at hnone
    rw [hmeta]
    exact hnone

theorem CloneInv.set (hinv : CloneInv h t nometa s) (hok : Clonable h t nometa) (hx : s.d x = some o)
    (k a : HeapValue) : s.set o k a = .ok { s with heap := s.heap.rawset o k a } := by
  rw [CloneState.set, LuaHeap.settable_eq (hinv.metafield hok hx)]
  rfl

theorem CloneInv.rawset (hinv : CloneInv h t nometa s) (hx : s.d x = some o) (k a : HeapValue) :
    CloneInv h t nometa { s with heap := s.heap.rawset o k a } := by
  refine ⟨hinv.extend.setTable (hinv.new x o hx).1 _, hinv.reached, hinv.new, hinv.inj, hinv.surj, ?_⟩
  intro y c hy
  rw [LuaHeap.metatable_rawset]
  exact hinv.metatable y c hy

/-! ## A table that is met -/

/-- The memo has one more table, whose copy is empty. -/
structure Met (h : LuaHeap) (t : ℕ) (nometa : Bool) (v : ℕ) (s s' : CloneState) : Prop where
  inv : CloneInv h t nometa s'
  grows : Grows s.d s'.d
  found : s'.d v = some s.heap.count
  only : ∀ y, s.d y = none → y ≠ v → s'.d y = none
  keeps : ∀ y c, s.d y = some c → s'.heap.tables c = s.heap.tables c
  empty : ∀ k, s'.heap.rawget s.heap.count k = none
  fewer : unmet (Finset.range h.count) s'.d < unmet (Finset.range h.count) s.d

theorem copyMetatable_eq (hinv : CloneInv h t nometa s) (hok : Clonable h t nometa)
    (hv : Reachable h.rawget t v) :
    copyMetatable nometa s.heap.newTable s.heap.count v
      = .ok (s.heap.newTable.setTable s.heap.count ⟨∅, if nometa then none else (h.tables v).metatable⟩) := by
  have hext := hinv.extend.trans (LuaHeap.extends_newTable s.heap)
  cases nometa with
  | true => simp [copyMetatable, LuaHeap.setTable, LuaHeap.newTable, Function.update_idem]
  | false =>
    have hget := (hok.getmetatable v hv).resolve_left (by simp)
    show s.heap.newTable.setmetatable s.heap.count (s.heap.newTable.getmetatable v) = _
    rw [hext.getmetatable hok.closed (hok.lt hv), hget, LuaHeap.setmetatable_eq (by rw [LuaHeap.newTable_self]),
      LuaHeap.newTable_self]
    rfl

theorem CloneInv.met (hinv : CloneInv h t nometa s) (hok : Clonable h t nometa) (hv : Reachable h.rawget t v)
    (hnew : s.d v = none) :
    Met h t nometa v s
      ⟨s.heap.newTable.setTable s.heap.count ⟨∅, if nometa then none else (h.tables v).metatable⟩,
        Function.update s.d v (some s.heap.count)⟩ := by
  have hold : ∀ y c, s.d y = some c → (s.heap.newTable.setTable s.heap.count
      ⟨∅, if nometa then none else (h.tables v).metatable⟩).tables c = s.heap.tables c := by
    intro y c hy
    have hlt := (hinv.new y c hy).2
    rw [LuaHeap.setTable_ne hlt.ne, LuaHeap.newTable_ne hlt]
  refine ⟨⟨?_, ?_, ?_, ?_, ?_, ?_⟩, ObjectGraph.grows_update hnew _, Function.update_self .., ?_, hold, ?_, ?_⟩
  · exact (hinv.extend.trans (LuaHeap.extends_newTable s.heap)).setTable hinv.extend.1 _
  · intro x c hx
    rcases (ObjectGraph.update_eq_some hnew).1 hx with ⟨rfl, -⟩ | hx
    · exact hv
    · exact hinv.reached x c hx
  · intro x c hx
    rcases (ObjectGraph.update_eq_some hnew).1 hx with ⟨-, rfl⟩ | hx
    · exact ⟨hinv.extend.1, Nat.lt_succ_self _⟩
    · exact ⟨(hinv.new x c hx).1, Nat.lt_succ_of_lt (hinv.new x c hx).2⟩
  · intro x y c hx hy
    rcases (ObjectGraph.update_eq_some hnew).1 hx with ⟨hxv, hc⟩ | hx'
    · rcases (ObjectGraph.update_eq_some hnew).1 hy with ⟨hyv, -⟩ | hy'
      · rw [hxv, hyv]
      · exact absurd hc (hinv.new y c hy').2.ne
    · rcases (ObjectGraph.update_eq_some hnew).1 hy with ⟨-, hc⟩ | hy'
      · exact absurd hc (hinv.new x c hx').2.ne
      · exact hinv.inj x y c hx' hy'
  · intro c hle hlt
    rcases Nat.lt_succ_iff_lt_or_eq.1 hlt with hlt | rfl
    · obtain ⟨x, hx⟩ := hinv.surj c hle hlt
      exact ⟨x, (ObjectGraph.update_eq_some hnew).2 (.inr hx)⟩
    · exact ⟨v, Function.update_self ..⟩
  · intro x c hx
    rcases (ObjectGraph.update_eq_some hnew).1 hx with ⟨rfl, rfl⟩ | hx
    · rw [LuaHeap.setTable_self]
    · rw [hold x c hx]
      exact hinv.metatable x c hx
  · intro y hy hyv
    exact (Function.update_of_ne hyv ..).trans hy
  · intro k
    rw [LuaHeap.rawget, LuaHeap.setTable_self]
    rfl
  · exact ObjectGraph.unmet_update (Finset.mem_range.2 (hok.lt hv)) hnew _

/-! ## The recursion -/

/-- From `s` to `s'`: the tables that the memo had are as they were, except the copy of `x`, and
those that it got are complete. -/
structure Progress (h : LuaHeap) (t : ℕ) (nometa : Bool) (x : ℕ) (s s' : CloneState) : Prop where
  inv : CloneInv h t nometa s'
  grows : Grows s.d s'.d
  keeps : ∀ y c, s.d y = some c → y ≠ x → s'.heap.tables c = s.heap.tables c
  copies : ∀ y c, s.d y = none → s'.d y = some c → CopyOf s'.d (h.rawget y) (s'.heap.rawget c)

theorem CloneInv.progress (hinv : CloneInv h t nometa s) (x : ℕ) : Progress h t nometa x s s := by
  refine ⟨hinv, Grows.refl _, fun _ _ _ _ => rfl, ?_⟩
  intro y c hnone hsome
  rw [hnone] at hsome
  cases hsome

variable {done : List (Σ _ : HeapValue, HeapValue)} {e : Σ _ : HeapValue, HeapValue}

/-- Some of the entries of `x` are copied. -/
structure CloneLoop (h : LuaHeap) (t : ℕ) (nometa : Bool) (x o : ℕ) (s : CloneState)
    (done : List (Σ _ : HeapValue, HeapValue)) (s' : CloneState) : Prop extends Progress h t nometa x s s' where
  built : Built (Copies s'.d) done (s'.heap.rawget o)

/-- An entry is assigned. -/
theorem CloneLoop.rawset (hl : CloneLoop h t nometa x o s done s') (hx : s.d x = some o)
    (hpre : done ++ [e] <+: (h.tables x).entries.entries) {a : HeapValue} (ha : Copies s'.d e.2 a) :
    CloneLoop h t nometa x o s (done ++ [e]) { s' with heap := s'.heap.rawset o e.1 a } := by
  have hx' := hl.grows x o hx
  -- no other copy is assigned to
  have hother : ∀ y c, s'.d y = some c → y ≠ x → (s'.heap.rawset o e.1 a).tables c = s'.heap.tables c := by
    intro y c hy hyx
    apply LuaHeap.setTable_ne
    rintro rfl
    exact hyx (hl.inv.inj y x c hy hx')
  refine ⟨⟨hl.inv.rawset hx' e.1 a, hl.grows, ?_, ?_⟩, hl.built.insert (h.tables x).entries.nodupKeys hpre ha⟩
  · intro y c hy hyx
    rw [hother y c (hl.grows y c hy) hyx]
    exact hl.keeps y c hy hyx
  · intro y c hnone hy
    have hyx : y ≠ x := by
      rintro rfl
      rw [hx] at hnone
      cases hnone
    have hget : (s'.heap.rawset o e.1 a).rawget c = s'.heap.rawget c := by
      unfold LuaHeap.rawget
      rw [hother y c hy hyx]
    rw [hget]
    exact hl.copies y c hnone hy

/-- A table that is met is copied meanwhile. -/
theorem CloneLoop.nested (hl : CloneLoop h t nometa x o s done s₁) (hx : s.d x = some o)
    (hm : Met h t nometa v s₁ s₂) (hp : Progress h t nometa v s₂ s₃)
    (hcopy : CopyOf s₃.d (h.rawget v) (s₃.heap.rawget s₁.heap.count)) (hnew : s₁.d v = none) :
    CloneLoop h t nometa x o s done s₃ := by
  have hgrows := hm.grows.trans hp.grows
  -- what the memo had before `v` was met stays
  have hold : ∀ y c, s₁.d y = some c → s₃.heap.tables c = s₁.heap.tables c := by
    intro y c hy
    have hyv : y ≠ v := by
      rintro rfl
      rw [hnew] at hy
      cases hy
    rw [hp.keeps y c (hm.grows y c hy) hyv, hm.keeps y c hy]
  have hget : ∀ y c, s₁.d y = some c → s₃.heap.rawget c = s₁.heap.rawget c := by
    intro y c hy
    unfold LuaHeap.rawget
    rw [hold y c hy]
  refine ⟨⟨hp.inv, hl.grows.trans hgrows, ?_, ?_⟩, ?_⟩
  · intro y c hy hyx
    rw [hold y c (hl.grows y c hy)]
    exact hl.keeps y c hy hyx
  · intro y c hnone hy
    cases hy₁ : s₁.d y with
    | some c₁ =>
      obtain rfl : c₁ = c := Option.some.inj ((hgrows y c₁ hy₁).symm.trans hy)
      rw [hget y c₁ hy₁]
      exact (hl.copies y c₁ hnone hy₁).mono hgrows
    | none =>
      by_cases hyv : y = v
      · subst hyv
        obtain rfl : s₁.heap.count = c := Option.some.inj ((hp.grows y _ hm.found).symm.trans hy)
        exact hcopy
      · exact hp.copies y c (hm.only y hy₁ hyv) hy
  · have hbuilt : Built (Copies s₃.d) done (s₁.heap.rawget o) :=
      fun k => ObjectGraph.rel_mono (fun _ _ => Copies.mono hgrows) (hl.built k)
    rwa [hget x o (hl.grows x o hx)]

/-- What `copy` does for a table in the memo whose copy is empty. -/
def CopyRight (h : LuaHeap) (t : ℕ) (nometa : Bool) (n : ℕ)
    (copy : CloneState → ℕ → ℕ → Except LuaStop CloneState) : Prop :=
  ∀ s o x, CloneInv h t nometa s → s.d x = some o → (∀ k, s.heap.rawget o k = none) →
    unmet (Finset.range h.count) s.d < n →
    ∃ s', copy s o x = .ok s' ∧ Progress h t nometa x s s' ∧ CopyOf s'.d (h.rawget x) (s'.heap.rawget o)

/-- One round of the loop. -/
theorem CloneLoop.entry {copy : CloneState → ℕ → ℕ → Except LuaStop CloneState} (hok : Clonable h t nometa)
    (hcopy : CopyRight h t nometa fuel copy) (hl : CloneLoop h t nometa x o s done s₁) (hx : s.d x = some o)
    (hpre : done ++ [e] <+: (h.tables x).entries.entries)
    (hfuel : unmet (Finset.range h.count) s.d < fuel + 1) :
    ∃ s', cloneEntry copy nometa o s₁ e = .ok s' ∧ CloneLoop h t nometa x o s (done ++ [e]) s' := by
  obtain ⟨k, a⟩ := e
  have hx₁ := hl.grows x o hx
  cases a with
  | plain a => exact ⟨_, hl.inv.set hok hx₁ k (.plain a), hl.rawset hx hpre (.plain a)⟩
  | ref v =>
    have hmem := hpre.subset (List.mem_append_right _ (List.mem_singleton.2 rfl))
    have hreach : Reachable h.rawget t v :=
      (hl.inv.reached x o hx₁).tail ⟨k, AList.mem_lookup_iff.2 hmem⟩
    cases hv : s₁.d v with
    | some c =>
      refine ⟨_, ?_, hl.rawset hx hpre (.ref hv)⟩
      rw [cloneEntry]
      simp only [hv]
      exact hl.inv.set hok hx₁ k (.ref c)
    | none =>
      have hm := hl.inv.met hok hreach hv
      have hle : unmet (Finset.range h.count) s₁.d ≤ unmet (Finset.range h.count) s.d :=
        ObjectGraph.unmet_le hl.grows
      have hlt := hm.fewer
      obtain ⟨s₃, hrun, hp, hcopied⟩ := hcopy _ _ v hm.inv hm.found hm.empty (by omega)
      have hl₃ := hl.nested hx hm hp hcopied hv
      refine ⟨_, ?_, hl₃.rawset hx hpre (.ref (hp.grows v _ hm.found))⟩
      rw [cloneEntry]
      simp only [hv, Loop.bind_eq_ok]
      exact ⟨_, copyMetatable_eq hl.inv hok hreach, s₃, hrun, hl₃.inv.set hok (hl₃.grows x o hx) k _⟩

/-- **The copy of `x` is complete when `copy` returns, and it returns.** -/
theorem cloneCopy_right (traverse : LuaHeap → ℕ → Except LuaStop Entries) (hok : Clonable h t nometa)
    (fuel : ℕ) :
    CopyRight h t nometa fuel (cloneCopy traverse nometa fuel) := by
  induction fuel with
  | zero =>
    intro s o x _ _ _ hfuel
    omega
  | succ fuel ih =>
    intro s o x hinv hx hempty hfuel
    have hreach := hinv.reached x o hx
    have hlt := hok.lt hreach
    have hpairs : s.heap.pairs traverse x = .ok (h.tables x).entries := by
      rw [LuaHeap.pairs_eq, hinv.extend.2 x hlt]
      rw [hinv.extend.metafield hok.closed hlt]
      exact hok.pairs x hreach
    have hinit : CloneLoop h t nometa x o s [] s := by
      refine ⟨hinv.progress x, ?_⟩
      intro k
      rw [hempty k]
      exact .none
    obtain ⟨s', hfold, hl⟩ := Loop.foldlM_total (f := cloneEntry (cloneCopy traverse nometa fuel) nometa o)
      (CloneLoop h t nometa x o s) hinit fun done e s₁ hpre hl => hl.entry hok ih hx hpre hfuel
    refine ⟨s', ?_, hl.toProgress, hl.built⟩
    rw [cloneCopy, Loop.bind_eq_ok]
    exact ⟨_, hpairs, hfold⟩

/-- More fuel changes nothing. -/
theorem cloneCopy_mono (hrun : cloneCopy traverse nometa fuel s o x = .ok s') :
    cloneCopy traverse nometa (fuel + 1) s o x = .ok s' := by
  induction fuel generalizing s o x s' with
  | zero => cases hrun
  | succ fuel ih =>
    rw [cloneCopy, Loop.bind_eq_ok] at hrun ⊢
    obtain ⟨es, hpairs, hfold⟩ := hrun
    refine ⟨es, hpairs, Loop.foldlM_mono ?_ hfold⟩
    rintro s₁ ⟨k, a⟩ s₂ hbody
    cases a with
    | plain a => exact hbody
    | ref v =>
      rw [cloneEntry] at hbody ⊢
      cases hv : s₁.d v with
      | some c =>
        simp only [hv] at hbody ⊢
        exact hbody
      | none =>
        simp only [hv, Loop.bind_eq_ok] at hbody ⊢
        obtain ⟨h₁, hmeta, s₃, hcopy, hset⟩ := hbody
        exact ⟨h₁, hmeta, s₃, ih hcopy, hset⟩

/-! ## `table.clone` -/

theorem tableClone_ok {r : ℕ × LuaHeap} : tableClone traverse h t nometa fuel = .ok r ↔
    ∃ h₁, copyMetatable nometa h.newTable h.count t = .ok h₁ ∧
      ∃ s, cloneCopy traverse nometa fuel ⟨h₁, Function.update (fun _ => none) t (some h.count)⟩ h.count t
          = .ok s ∧
        Except.ok (h.count, s.heap) = (.ok r : Except LuaStop _) := by
  simp only [tableClone, Loop.bind_eq_ok]

theorem tableClone_mono {r : ℕ × LuaHeap} (hrun : tableClone traverse h t nometa fuel = .ok r) :
    tableClone traverse h t nometa (fuel + 1) = .ok r := by
  obtain ⟨h₁, hmeta, s, hcopy, hend⟩ := tableClone_ok.1 hrun
  exact tableClone_ok.2 ⟨h₁, hmeta, s, cloneCopy_mono hcopy, hend⟩

/-- **The clone is isomorphic to the original, and nothing else changed.** -/
theorem clone_iso (traverse : LuaHeap → ℕ → Except LuaStop Entries) (hok : Clonable h t nometa) :
    ∃ r h', Returns (tableClone traverse h t nometa) (r, h') ∧ ∃ f : ℕ → ℕ, f t = r ∧
      Set.BijOn f {x | Reachable h.rawget t x} {c | h.count ≤ c ∧ c < h'.count} ∧
      (∀ x, Reachable h.rawget t x → ∀ k, h'.rawget (f x) k = (h.rawget x k).map (Value.map f)) ∧
      (∀ x, Reachable h.rawget t x →
        (h'.tables (f x)).metatable = if nometa then none else (h.tables x).metatable) ∧
      ∀ x, x < h.count → h'.tables x = h.tables x := by
  have hinit := cloneInv_init h t nometa
  have hm := hinit.met hok .refl rfl
  obtain ⟨s', hrun, hp, hcopied⟩ := cloneCopy_right traverse hok _ _ _ t hm.inv hm.found hm.empty
    (Nat.lt_succ_self _)
  have hcomplete : Copied h.rawget s'.heap.rawget t s'.d := by
    refine ⟨⟨_, hp.grows t _ hm.found⟩, hp.inv.reached, hp.inv.inj, ?_⟩
    intro x c hx
    by_cases hxt : x = t
    · subst hxt
      obtain rfl : h.count = c := Option.some.inj ((hp.grows x _ hm.found).symm.trans hx)
      exact hcopied
    · exact hp.copies x c (hm.only x rfl hxt) hx
  obtain ⟨f, hf, hbij, hcontents⟩ := hcomplete.iso
  refine ⟨h.count, s'.heap, returns_of_mono (fun _ => tableClone_mono)
    (tableClone_ok.2 ⟨_, copyMetatable_eq hinit hok .refl, s', hrun, rfl⟩), f,
    hf t _ (hp.grows t _ hm.found), ?_, hcontents, ?_, hp.inv.extend.2⟩
  · have hrange : {c | ∃ x, s'.d x = some c} = {c | h.count ≤ c ∧ c < s'.heap.count} := by
      ext c
      constructor
      · rintro ⟨x, hx⟩
        exact hp.inv.new x c hx
      · rintro ⟨hle, hlt⟩
        exact hp.inv.surj c hle hlt
    rw [← hrange]
    exact hbij
  · intro x hx
    obtain ⟨c, hc⟩ := hcomplete.met hx
    rw [hf x c hc]
    exact hp.inv.metatable x c hc

/-- Table 0 has table 1 twice, which has table 0; table 1 is the metatable of both. -/
def cyclicHeap : LuaHeap where
  count := 2
  tables t :=
    if t = 0 then ⟨(AList.singleton (stringKey [ch 'x']) (.ref 1)).insert (stringKey [ch 'y']) (.ref 1), some 1⟩
    else ⟨AList.singleton (stringKey [ch 'x']) (.ref 0), some 1⟩

theorem clone_iso_cyclic :
    ∃ r h', Returns (tableClone (fun h t => .ok (h.tables t).entries) cyclicHeap 0 false) (r, h') ∧
      ∃ f : ℕ → ℕ, f 0 = r ∧
      Set.BijOn f {x | Reachable cyclicHeap.rawget 0 x} {c | 2 ≤ c ∧ c < h'.count} ∧
      (∀ x, Reachable cyclicHeap.rawget 0 x → ∀ k,
        h'.rawget (f x) k = (cyclicHeap.rawget x k).map (Value.map f)) ∧
      (∀ x, Reachable cyclicHeap.rawget 0 x → (h'.tables (f x)).metatable = (cyclicHeap.tables x).metatable) ∧
      ∀ x, x < 2 → h'.tables x = cyclicHeap.tables x := by
  have hc : cyclicHeap.Closed := ⟨by decide, by decide⟩
  have hlt : ∀ x, Reachable cyclicHeap.rawget 0 x → x < 2 := fun x => reachable_lt hc Nat.two_pos
  apply clone_iso
  refine ⟨hc, Nat.two_pos, ?_, ?_, ?_⟩
  · intro x hx
    exact (by decide : ∀ x, x < 2 → cyclicHeap.metafield x PAIRS = none) x (hlt x hx)
  · intro x hx
    exact .inr ((by decide : ∀ x, x < 2 → cyclicHeap.metafield x NEWINDEX = none) x (hlt x hx))
  · intro x hx
    exact .inr ((by decide : ∀ x, x < 2 →
      cyclicHeap.getmetatable x = (cyclicHeap.tables x).metatable.map .ref) x (hlt x hx))

/-- Table 0 is empty; its metatable, table 1, is protected. -/
def protectedHeap : LuaHeap where
  count := 2
  tables t := if t = 0 then ⟨∅, some 1⟩ else ⟨AList.singleton METATABLE (stringKey [ch 'x']), none⟩

theorem clone_protected :
    protectedHeap.Closed ∧
    (∀ x, x < 2 → protectedHeap.metafield x PAIRS = none ∧ protectedHeap.metafield x NEWINDEX = none) ∧
    ¬ ∃ r, Returns (tableClone (fun h t => .ok (h.tables t).entries) protectedHeap 0 false) r := by
  refine ⟨⟨by decide, by decide⟩, by decide, ?_⟩
  rintro ⟨r, n, hr⟩
  obtain ⟨h₁, hmeta, -⟩ := tableClone_ok.1 (hr n (le_refl n))
  have hset : protectedHeap.newTable.setmetatable 2 (protectedHeap.newTable.getmetatable 0) = .ok h₁ := hmeta
  obtain ⟨m, hm, -⟩ := LuaHeap.setmetatable_ok hset
  have hget : protectedHeap.newTable.getmetatable 0 = some (stringKey [ch 'x']) := by decide
  rw [hget] at hm
  cases m with
  | none => cases hm
  | some m => cases hm

end Qsf
