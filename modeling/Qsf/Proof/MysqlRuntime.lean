import Qsf.Spec.MysqlRuntime

/-!
# Cursors release what they hold, exactly once

A cursor is in one of two states. It holds its result and its reference, and neither was given
back (`Holds`), or it holds neither, and both were given back once (`Released`). Every
function keeps a cursor that holds in the first state or calls `cursor_nullify`, which leads
to the second one, and does nothing to a cursor that is released.
-/

set_option autoImplicit false

namespace Qsf

variable {toLstring : LuaValue → Option (List UInt8)} {atof : List UInt8 → UInt64}

/-! ## Fetching keeps what a cursor holds -/

/-- The two cursors have the same reference, and both a result or none. -/
def Cursor.SameHold (cur cur' : Cursor) :
    Prop := cur'.conn = cur.conn ∧ cur'.myRes.isSome = cur.myRes.isSome

namespace Cursor

variable {cur cur' cur'' : Cursor}

theorem SameHold.trans (h : cur.SameHold cur') (h' : cur'.SameHold cur'') : cur.SameHold cur'' :=
  ⟨h'.1.trans h.1, h'.2.trans h.2⟩

theorem sameHold_fetchRow (cur : Cursor) : cur.SameHold cur.fetchRow.2 := ⟨rfl, Option.isSome_map⟩

theorem sameHold_fetchLengths (cur : Cursor) :
    cur.SameHold cur.fetchLengths.2 := ⟨rfl, Option.isSome_map⟩

theorem sameHold_fetchFields (cur : Cursor) : cur.SameHold cur.fetchFields := ⟨rfl, rfl⟩

theorem sameHold_fetchRows (n : ℕ) (cur : Cursor) : cur.SameHold (MysqlRuntime.fetchRows n cur) := by
  induction n generalizing cur with
  | zero => exact ⟨rfl, rfl⟩
  | succ n ih => exact (sameHold_fetchRow cur).trans (ih cur.fetchRow.2)

/-- A cursor that was released already stays as it is. -/
theorem nullify_released (reg : Registry) (hconn : cur.conn = LUA_NOREF) (hres : cur.myRes = none) :
    cur.nullify reg = (reg, cur) := by
  obtain ⟨conn, fetchAll, numcols, myRes, fields, cached⟩ := cur
  subst hconn hres
  rfl

end Cursor

/-- **`cursor_fetch`** keeps what the cursor holds. -/
theorem sameHold_cursorFetch (room : ℕ) (cur : Cursor) (opt : LuaValue) :
    cur.SameHold (cursorFetch atof room cur opt).2 := by
  unfold cursorFetch
  by_cases hnone : cur.myRes.isNone
  · rw [if_pos hnone]
    exact ⟨rfl, rfl⟩
  · rw [if_neg hnone]
    cases hrow : cur.fetchRow with
    | mk row cur' =>
      have h' : cur.SameHold cur' := by
        have h := cur.sameHold_fetchRow
        rwa [hrow] at h
      cases row with
      | none => exact h'
      | some row =>
        have h'' := (h'.trans cur'.sameHold_fetchLengths).trans (Cursor.sameHold_fetchFields _)
        simp only
        split
        · split
          · exact h''
          · exact h''
        · exact h''

/-- A released cursor has no result to fetch from. -/
theorem cursorFetch_released (room : ℕ) {cur : Cursor} (h : cur.myRes = none) (opt : LuaValue) :
    cursorFetch atof room cur opt = (.error (.badArg 1 "invalid Cursor object"), cur) := by
  unfold cursorFetch
  rw [h, if_pos Option.isNone_none]

/-! ## The states of a cursor -/

namespace CursorObject

variable {o : CursorObject} {reg reg' : Registry} {freed freed' : ℕ → ℕ} {cur : Cursor} {k l : ℕ}

/-- The cursor holds its result and, as number `k`, its connection; neither was given back. -/
structure Holds (o : CursorObject) (reg : Registry) (freed : ℕ → ℕ) (k : ℕ) : Prop where
  conn : o.cur.conn = k
  slot : reg.slot k = some (.userdata o.owner)
  res : o.cur.myRes.isSome = true
  freed : freed o.res = 0
  unrefs : o.unrefs = 0
  finalized : o.finalized = false

/-- The cursor holds nothing; both were given back once. -/
structure Released (o : CursorObject) (freed : ℕ → ℕ) : Prop where
  conn : o.cur.conn = LUA_NOREF
  res : o.cur.myRes = none
  freed : freed o.res = 1
  unrefs : o.unrefs = 1

theorem Holds.conn_ne (h : o.Holds reg freed k) : o.cur.conn ≠ LUA_NOREF := by
  have hconn := h.conn
  unfold LUA_NOREF
  omega

theorem Holds.congr (h : o.Holds reg freed k) (hslot : reg'.slot k = reg.slot k)
    (hfreed : freed' o.res = freed o.res) :
    o.Holds reg' freed' k :=
  ⟨h.conn, hslot.trans h.slot, h.res, hfreed.trans h.freed, h.unrefs, h.finalized⟩

/-- Whatever a cursor fetches, it goes on holding. -/
theorem Holds.setCur (h : o.Holds reg freed k) (hc : o.cur.SameHold cur) :
    ({ o with cur := cur } : CursorObject).Holds reg freed k :=
  ⟨hc.1.trans h.conn, h.slot, hc.2.trans h.res, h.freed, h.unrefs, h.finalized⟩

end CursorObject

namespace MysqlRuntime

variable {w : MysqlRuntime} {i c k : ℕ} {cur : Cursor} {o : CursorObject}

/-- The invariant. -/
structure Inv (w : MysqlRuntime) : Prop where
  sound : w.registry.Sound
  fault : w.registry.fault = false
  cursor : ∀ i < w.cursorCount,
    (∃ k, (w.cursors i).Holds w.registry w.freed k) ∨ (w.cursors i).Released w.freed
  /-- Each result belongs to one cursor, and so does each reference. -/
  results : w.results = w.cursorCount
  res : ∀ i < w.cursorCount, (w.cursors i).res = i
  refs : ∀ i < w.cursorCount, ∀ j < w.cursorCount, (w.cursors i).cur.conn = (w.cursors j).cur.conn →
    (w.cursors i).cur.conn ≠ LUA_NOREF → i = j
  fresh : ∀ r, w.cursorCount ≤ r → w.freed r = 0
  collected : ∀ c, (w.conns c).collected = true →
    (w.conns c).closed = true ∧ ∀ k, w.registry.slot k ≠ some (.userdata c)

theorem inv_init : init.Inv where
  sound := RefPool.sound_init 3
  fault := rfl
  cursor := fun _ hi => absurd hi (Nat.not_lt_zero _)
  results := rfl
  res := fun _ hi => absurd hi (Nat.not_lt_zero _)
  refs := fun _ hi => absurd hi (Nat.not_lt_zero _)
  fresh := fun _ _ => rfl
  collected := fun _ h => nomatch h

/-! ## One cursor changes -/

/-- **Another cursor under number `i`**: it holds something or was released, and the other
cursors keep their slots and their counts, and do not have its reference. -/
theorem Inv.change (h : w.Inv) {w' : MysqlRuntime} (hcur : w'.cursors = Function.update w.cursors i o)
    (hcount : ∀ j < w'.cursorCount, j ≠ i → j < w.cursorCount)
    (ho : (∃ k, o.Holds w'.registry w'.freed k) ∨ o.Released w'.freed) (hres : o.res = i)
    (hslot : ∀ j < w.cursorCount, j ≠ i → ∀ l, (w.cursors j).Holds w.registry w.freed l →
      w'.registry.slot l = w.registry.slot l)
    (hfreed : ∀ j < w.cursorCount, j ≠ i → w'.freed (w.cursors j).res = w.freed (w.cursors j).res)
    (hconn : ∀ j < w.cursorCount, j ≠ i → (w.cursors j).cur.conn = o.cur.conn → o.cur.conn = LUA_NOREF)
    (hsound : w'.registry.Sound) (hfault : w'.registry.fault = false)
    (hresults : w'.results = w'.cursorCount)
    (hfresh : ∀ r, w'.cursorCount ≤ r → w'.freed r = 0)
    (hcollected : ∀ c, (w'.conns c).collected = true →
      (w'.conns c).closed = true ∧ ∀ k, w'.registry.slot k ≠ some (.userdata c)) : w'.Inv := by
  have hself : w'.cursors i = o := by rw [hcur, Function.update_self]
  have hother : ∀ j, j ≠ i → w'.cursors j = w.cursors j := by
    intro j hji
    rw [hcur, Function.update_of_ne hji]
  refine ⟨hsound, hfault, ?_, hresults, ?_, ?_, hfresh, hcollected⟩
  · intro j hj
    by_cases hji : j = i
    · rw [hji, hself]
      exact ho
    · have hj' := hcount j hj hji
      rw [hother j hji]
      rcases h.cursor j hj' with ⟨l, hl⟩ | hrel
      · exact .inl ⟨l, hl.congr (hslot j hj' hji l hl) (hfreed j hj' hji)⟩
      · exact .inr ⟨hrel.conn, hrel.res, (hfreed j hj' hji).trans hrel.freed, hrel.unrefs⟩
  · intro j hj
    by_cases hji : j = i
    · rw [hji, hself, hres]
    · rw [hother j hji]
      exact h.res j (hcount j hj hji)
  · intro j hj l hl heq hne
    by_cases hji : j = i
    · by_cases hli : l = i
      · rw [hji, hli]
      · rw [hji, hself] at heq hne
        rw [hother l hli] at heq
        exact absurd (hconn l (hcount l hl hli) hli heq.symm) hne
    · rw [hother j hji] at heq hne
      by_cases hli : l = i
      · rw [hli, hself] at heq
        exact absurd (heq.trans (hconn j (hcount j hj hji) hji heq)) hne
      · rw [hother l hli] at heq
        exact h.refs j (hcount j hj hji) l (hcount l hl hli) heq hne

/-- A cursor that keeps its number, its reference and its state. -/
theorem Inv.setObject (h : w.Inv) (hi : i < w.cursorCount) (hres : o.res = (w.cursors i).res)
    (hconn : o.cur.conn = (w.cursors i).cur.conn)
    (ho : (∃ k, o.Holds w.registry w.freed k) ∨ o.Released w.freed) :
    ({ w with cursors := Function.update w.cursors i o } : MysqlRuntime).Inv := by
  refine h.change rfl (fun j hj _ => hj) ho (hres.trans (h.res i hi)) (fun _ _ _ _ _ => rfl)
    (fun _ _ _ => rfl) ?_ h.sound h.fault h.results h.fresh h.collected
  intro j hj hji heq
  by_contra hne
  exact hji (h.refs j hj i hi (heq.trans hconn) (heq.symm ▸ hne))

/-- Fetching leaves the invariant alone. -/
theorem Inv.setCursor (h : w.Inv) (hi : i < w.cursorCount) (hc : (w.cursors i).cur.SameHold cur) :
    (w.setCursor i cur).Inv := by
  refine h.setObject hi rfl hc.1 ?_
  rcases h.cursor i hi with ⟨k, hk⟩ | hrel
  · exact .inl ⟨k, hk.setCur hc⟩
  · have hnone : cur.myRes = none := by
      have hsome := hc.2
      rw [hrel.res] at hsome
      exact Option.isSome_eq_false_iff.1 hsome |> Option.isNone_iff_eq_none.1
    exact .inr ⟨hc.1.trans hrel.conn, hnone, hrel.freed, hrel.unrefs⟩

/-- **`cursor_nullify` of a cursor that holds** gives back its result and its reference. -/
theorem nullify_holds (hk : (w.cursors i).Holds w.registry w.freed k) :
    w.cursorNullify i = { w with
      registry := w.registry.give k
      cursors := Function.update w.cursors i
        { w.cursors i with cur := ((w.cursors i).cur.nullify w.registry).2, unrefs := 1 }
      freed := Function.update w.freed (w.cursors i).res 1 } := by
  have hconn : (w.cursors i).cur.conn = k := hk.conn
  have hreg : ((w.cursors i).cur.nullify w.registry).1 = w.registry.give k := by
    unfold Cursor.nullify luaLUnref
    rw [if_neg hk.conn_ne, hconn, if_neg (by omega), Int.toNat_natCast]
  unfold cursorNullify
  simp only [hreg, if_neg hk.conn_ne, hk.unrefs, if_pos hk.res, hk.freed, Nat.zero_add]

/-- One of a cursor that was released does nothing. -/
theorem nullify_released (hrel : (w.cursors i).Released w.freed) : w.cursorNullify i = w := by
  have hnull := Cursor.nullify_released w.registry hrel.conn hrel.res
  have hnone : (w.cursors i).cur.myRes.isSome = false := by rw [hrel.res, Option.isSome_none]
  unfold cursorNullify
  simp only [hnull, if_pos hrel.conn, hnone, Bool.false_eq_true, if_false, Function.update_eq_self]

/-- **After `cursor_nullify`** the cursor is released, and the invariant holds. -/
theorem Inv.nullify (h : w.Inv) (hi : i < w.cursorCount) :
    (w.cursorNullify i).Inv ∧ ((w.cursorNullify i).cursors i).Released (w.cursorNullify i).freed ∧
      (w.cursorNullify i).cursorCount = w.cursorCount := by
  rcases h.cursor i hi with ⟨k, hk⟩ | hrel
  · rw [nullify_holds hk]
    have hself : ({ w.cursors i with cur := ((w.cursors i).cur.nullify w.registry).2, unrefs := 1 } :
        CursorObject).Released (Function.update w.freed (w.cursors i).res 1) :=
      ⟨rfl, rfl, Function.update_self .., rfl⟩
    refine ⟨h.change rfl (fun j hj _ => hj) (.inr hself) (h.res i hi) ?_ ?_ (fun _ _ _ _ => rfl)
      (h.sound.give hk.slot) ((RefPool.give_fault hk.slot).trans h.fault) h.results ?_ ?_, ?_, rfl⟩
    · -- another cursor has another reference
      intro j hj hji l hl
      have hlk : l ≠ k := by
        rintro rfl
        exact hji (h.refs j hj i hi (hl.conn.trans hk.conn.symm) hl.conn_ne)
      rw [RefPool.give_slot, if_neg hlk]
    · -- and another result
      intro j hj hji
      apply Function.update_of_ne
      rw [h.res j hj, h.res i hi]
      exact hji
    · intro r hr
      have hri : r ≠ (w.cursors i).res := by
        rw [h.res i hi]
        exact fun heq => absurd hi (not_lt.2 (heq ▸ hr))
      simp only [Function.update_of_ne hri]
      exact h.fresh r hr
    · intro c hc
      obtain ⟨hclosed, hout⟩ := h.collected c hc
      refine ⟨hclosed, ?_⟩
      intro l
      rw [RefPool.give_slot]
      split
      · exact nofun
      · exact hout l
    · simp only [Function.update_self]
      exact hself
  · rw [nullify_released hrel]
    exact ⟨h, hrel, rfl⟩

/-- **`cursor_gc`**: a cursor whose finalizer was run is released. -/
theorem Inv.cursorGc (h : w.Inv) (hi : i < w.cursorCount) : (w.cursorGc i).Inv := by
  obtain ⟨hinv, hrel, hcount⟩ := h.nullify hi
  have hi' : i < (w.cursorNullify i).cursorCount := hcount.symm ▸ hi
  exact hinv.setObject hi' rfl rfl (.inr ⟨hrel.conn, hrel.res, hrel.freed, hrel.unrefs⟩)

/-! ## Functions of the library -/

/-- The number of a new reference is not one that a cursor holds. -/
theorem Inv.conn_ne_take (h : w.Inv) (hi : i < w.cursorCount) (v : LuaValue) :
    (w.cursors i).cur.conn ≠ ((w.registry.take v).1 : ℤ) := by
  intro heq
  rcases h.cursor i hi with ⟨k, hk⟩ | hrel
  · have hkt : k = (w.registry.take v).1 := by exact_mod_cast hk.conn.symm.trans heq
    exact RefPool.ne_take h.sound hk.slot hkt
  · rw [hrel.conn] at heq
    unfold LUA_NOREF at heq
    omega

/-- **A new cursor** holds the result and the reference it was created with. -/
theorem Inv.createCursor (h : w.Inv) (hopen : (w.conns c).closed = false) (res : MysqlRes)
    (numcols : ℕ) (fetchAll : Bool) : (w.createCursor c res numcols fetchAll).2.Inv := by
  have hnil : LuaValue.userdata c ≠ .nil := LuaValue.noConfusion
  have hcreate : (w.createCursor c res numcols fetchAll).2 = { w with
      registry := (w.registry.take (.userdata c)).2
      cursors := Function.update w.cursors w.cursorCount
        ⟨Cursor.create (w.registry.take (.userdata c)).1 res numcols fetchAll, w.results, c, 0, false⟩
      cursorCount := w.cursorCount + 1
      results := w.results + 1 } := by
    unfold MysqlRuntime.createCursor luaLRef
    rw [if_neg hnil]
  rw [hcreate]
  have hcount : ∀ j < w.cursorCount + 1, j ≠ w.cursorCount → j < w.cursorCount := by
    intro j hj hji
    omega
  refine h.change rfl hcount (.inl ⟨_, rfl, ?_, rfl, ?_, rfl, rfl⟩) h.results ?_ (fun _ _ _ => rfl) ?_
    h.sound.take (RefPool.take_fault.trans h.fault) (congrArg (· + 1) h.results)
    (fun r hr => h.fresh r (Nat.le_of_succ_le hr)) ?_
  · rw [RefPool.take_slot, if_pos rfl]
  · exact h.fresh w.results h.results.ge
  · intro j hj _ l hl
    exact (RefPool.take_keeps h.sound hl.slot).trans hl.slot.symm
  · intro j hj _ heq
    exact absurd heq (h.conn_ne_take hj _)
  · intro d hd
    obtain ⟨hclosed, hout⟩ := h.collected d hd
    refine ⟨hclosed, ?_⟩
    intro l
    rw [RefPool.take_slot]
    split
    · intro heq
      cases heq
      rw [hopen] at hclosed
      cases hclosed
    · exact hout l

/-- **`conn_execute`**, whatever is checked and answered. -/
theorem Inv.connExecute (h : w.Inv) (c : ℕ) (stmt fetchOpt : LuaValue) (reply : QueryReply) :
    (w.connExecute toLstring c stmt fetchOpt reply).2.Inv := by
  unfold MysqlRuntime.connExecute
  by_cases hclosed : (w.conns c).closed = true
  · rw [if_pos hclosed]
    exact h
  rw [if_neg hclosed]
  cases luaTolstring toLstring stmt with
  | none => exact h
  | some _ =>
    simp only
    by_cases herr : reply.err ≠ 0
    · rw [if_pos herr]
      exact h
    · rw [if_neg herr]
      cases reply.res with
      | some res => exact h.createCursor (Bool.eq_false_iff.2 hclosed) res _ _
      | none =>
        simp only
        split
        · exact h
        · exact h

/-- Another state of a connection that the registry does not hold, or that is not collected. -/
theorem Inv.setConn (h : w.Inv) {conn : Connection} {n : ℕ}
    (hc : conn.collected = true → conn.closed = true ∧ ∀ k, w.registry.slot k ≠ some (.userdata c)) :
    ({ w with conns := Function.update w.conns c conn, connCount := n } : MysqlRuntime).Inv := by
  refine ⟨h.sound, h.fault, h.cursor, h.results, h.res, h.refs, h.fresh, ?_⟩
  intro d hd
  by_cases hdc : d = c
  · subst hdc
    simp only [Function.update_self] at hd ⊢
    exact hc hd
  · simp only [Function.update_of_ne hdc] at hd ⊢
    exact h.collected d hd

theorem Inv.connClose (h : w.Inv) (c : ℕ) : (w.connClose c).Inv :=
  h.setConn fun hc => ⟨rfl, (h.collected c hc).2⟩

theorem Inv.connGc (h : w.Inv) (hout : ∀ k, w.registry.slot k ≠ some (.userdata c)) :
    (w.connGc c).Inv :=
  (h.connClose c).setConn fun _ => ⟨by simp only [MysqlRuntime.connClose, Function.update_self], hout⟩

/-- **`cursor_fetch_all`** nullifies the cursor, or keeps what it holds. -/
theorem fetchAll_cases (w : MysqlRuntime) (i : ℕ) (opt : LuaValue) (memory : Option ℕ) :
    (w.fetchAll atof i opt memory).2 = w ∨ ∃ cur, (w.cursors i).cur.SameHold cur ∧
      ((w.fetchAll atof i opt memory).2 = w.setCursor i cur ∨
        (w.fetchAll atof i opt memory).2 = (w.setCursor i cur).cursorNullify i) := by
  unfold fetchAll
  by_cases hnone : (w.cursors i).cur.myRes.isNone = true
  · rw [if_pos hnone]
    exact .inl rfl
  rw [if_neg hnone]
  by_cases hmode : (!(w.cursors i).cur.fetchAll) = true
  · rw [if_pos hmode]
    exact .inl rfl
  rw [if_neg hmode]
  refine .inr ?_
  cases hrow : (w.cursors i).cur.fetchRow with
  | mk row cur =>
    have h' : (w.cursors i).cur.SameHold cur := by
      have h := (w.cursors i).cur.sameHold_fetchRow
      rwa [hrow] at h
    cases row with
    | none => exact ⟨cur, h', .inr rfl⟩
    | some row =>
      have h'' := (h'.trans cur.sameHold_fetchFields).trans (Cursor.sameHold_fetchLengths _)
      simp only
      split
      · exact ⟨cur, h', .inr rfl⟩
      · split
        · split
          · exact ⟨_, h''.trans (Cursor.sameHold_fetchRows _ _), .inl rfl⟩
          · exact ⟨_, h'', .inr rfl⟩
        · exact ⟨_, h'', .inl rfl⟩

theorem Inv.fetchAll (h : w.Inv) (hi : i < w.cursorCount) (opt : LuaValue) (memory : Option ℕ) :
    (w.fetchAll atof i opt memory).2.Inv := by
  rcases fetchAll_cases w i opt memory with heq | ⟨cur, hc, heq | heq⟩
  · rw [heq]
    exact h
  · rw [heq]
    exact h.setCursor hi hc
  · rw [heq]
    exact ((h.setCursor hi hc).nullify hi).1

/-- **Every step keeps the invariant.** -/
theorem inv_step {e : MysqlEvent} (h : w.Inv) (he : w.enabled e) : (w.step toLstring atof e).Inv := by
  cases e with
  | connCreate => exact h.setConn nofun
  | execute c stmt fetchOpt reply => exact h.connExecute c stmt fetchOpt reply
  | fetch i opt room => exact h.setCursor he (sameHold_cursorFetch room _ opt)
  | fetchAll i opt memory => exact h.fetchAll he opt memory
  | numrows i rows => exact h
  | connClose c => exact h.connClose c
  | connGc c => exact h.connGc he.2
  | cursorGc i => exact h.cursorGc he

/-! ## What every run keeps -/

/-- **Cursors release what they hold, exactly once.** -/
structure ReleasedOnce (w : MysqlRuntime) : Prop where
  /-- Each result belongs to one cursor, and is freed at most once. -/
  result : ∀ r < w.results, ∃ i < w.cursorCount, (w.cursors i).res = r ∧
    ∀ j < w.cursorCount, (w.cursors j).res = r → j = i
  once : ∀ r, w.freed r ≤ 1
  /-- It was freed when the finalizer of its cursor was run. -/
  finalized : ∀ i < w.cursorCount, (w.cursors i).finalized = true → w.freed (w.cursors i).res = 1
  /-- Each reference is given back at most once, and is one that is in use. -/
  unrefs : ∀ i < w.cursorCount, (w.cursors i).unrefs ≤ 1
  fault : w.registry.fault = false
  /-- A connection that a cursor holds was not collected, and cannot be. -/
  owner : ∀ i < w.cursorCount, (w.cursors i).cur.conn ≠ LUA_NOREF →
    luaRawgeti w.registry (w.cursors i).cur.conn = .userdata (w.cursors i).owner ∧
      (w.conns (w.cursors i).owner).collected = false ∧ ¬ w.enabled (.connGc (w.cursors i).owner)
  pair : ∀ i < w.cursorCount, (w.cursors i).cur.myRes = none ↔ (w.cursors i).cur.conn = LUA_NOREF
  /-- A released cursor is not fetched from. -/
  raises : ∀ i < w.cursorCount, (w.cursors i).cur.myRes = none →
    (∀ atof opt room, w.fetch atof i opt room = (.error (.badArg 1 "invalid Cursor object"), w)) ∧
      (∀ atof opt memory, w.fetchAll atof i opt memory = (.error (.badArg 1 "invalid Cursor object"), w)) ∧
      ∀ rows, w.cursorNumrows i rows = .error (.badArg 1 "invalid Cursor object")

theorem Inv.releasedOnce (h : w.Inv) : w.ReleasedOnce where
  result := by
    intro r hr
    rw [h.results] at hr
    exact ⟨r, hr, h.res r hr, fun j hj hjr => (h.res j hj).symm.trans hjr⟩
  once := by
    intro r
    rcases lt_or_ge r w.cursorCount with hr | hr
    · have hres := h.res r hr
      rcases h.cursor r hr with ⟨k, hk⟩ | hrel
      · have hzero := hk.freed
        rw [hres] at hzero
        omega
      · have hone := hrel.freed
        rw [hres] at hone
        omega
    · rw [h.fresh r hr]
      omega
  finalized := by
    intro i hi hfin
    rcases h.cursor i hi with ⟨k, hk⟩ | hrel
    · rw [hk.finalized] at hfin
      cases hfin
    · exact hrel.freed
  unrefs := by
    intro i hi
    rcases h.cursor i hi with ⟨k, hk⟩ | hrel
    · rw [hk.unrefs]
      omega
    · rw [hrel.unrefs]
  fault := h.fault
  owner := by
    intro i hi hne
    rcases h.cursor i hi with ⟨k, hk⟩ | hrel
    · refine ⟨?_, Bool.eq_false_iff.2 fun hcol => (h.collected _ hcol).2 k hk.slot, fun hen => hen.2 k hk.slot⟩
      unfold luaRawgeti
      rw [hk.conn, if_neg (by omega), Int.toNat_natCast, hk.slot, Option.getD_some]
    · exact absurd hrel.conn hne
  pair := by
    intro i hi
    rcases h.cursor i hi with ⟨k, hk⟩ | hrel
    · refine ⟨?_, fun hconn => absurd hconn hk.conn_ne⟩
      intro hnone
      have hsome := hk.res
      rw [hnone] at hsome
      cases hsome
    · exact ⟨fun _ => hrel.conn, fun _ => hrel.res⟩
  raises := by
    intro i hi hnone
    refine ⟨?_, ?_, ?_⟩
    · intro atof opt room
      unfold fetch
      simp only [cursorFetch_released room hnone opt, MysqlRuntime.setCursor, Function.update_eq_self]
    · intro atof opt memory
      unfold MysqlRuntime.fetchAll
      simp only [hnone, Option.isNone_none, if_true]
    · intro rows
      unfold cursorNumrows
      rw [hnone, if_pos Option.isNone_none]

/-- **In every reachable state**: whatever is executed, fetched, closed and collected, in any
order, and whichever checks raise. -/
theorem cursors_released (h : (mysqlRuntime toLstring atof).Reachable w) : w.ReleasedOnce :=
  have hinv : w.Inv := Machine.Reachable.invariant (I := Inv)
    (fun s hs => by obtain rfl : s = init := hs; exact inv_init)
    (fun s e hs he => inv_step hs he) h
  hinv.releasedOnce

/-- Two rows are fetched at once, and the cursor is collected. -/
theorem cursors_released_run :
    let row : MysqlRow := fun _ => some ⟨[49], fun _ => 0⟩
    let res : MysqlRes := ⟨fun _ => ⟨⟨[110], by decide⟩, .long⟩, [row, row], none, fun _ => 0⟩
    let es : List MysqlEvent := [.connCreate, .execute 0 (.string [115]) .nil ⟨0, some res, 1, 0⟩,
      .fetchAll 0 .nil none, .cursorGc 0]
    let w := (mysqlRuntime (fun _ => none) fun _ => 0).exec init es
    w.ReleasedOnce ∧ w.freed 0 = 1 := by
  intro row res es w
  have hruns : (mysqlRuntime (fun _ => none) fun _ => 0).Runs init es :=
    ⟨trivial, Nat.zero_lt_one, Nat.zero_lt_one, Nat.zero_lt_one, trivial⟩
  have h : w.ReleasedOnce := cursors_released (Machine.Reachable.runs (.start rfl) hruns)
  exact ⟨h, h.finalized 0 (by decide) (by decide)⟩

/-! ## The functions of a cursor by itself -/

/-- `cursor_nullify` on the object is `Cursor.nullify`. -/
theorem nullify_setCursor (w : MysqlRuntime) (i : ℕ) (cur : Cursor) :
    ((w.setCursor i cur).cursorNullify i).registry = (cur.nullify w.registry).1 ∧
      (((w.setCursor i cur).cursorNullify i).cursors i).cur = (cur.nullify w.registry).2 := by
  unfold cursorNullify setCursor
  simp only [Function.update_self, and_self]

/-- **`cursor_fetch_all` on the object** does what it does on the cursor: the same result, the
same registry and the same cursor. -/
theorem fetchAll_eq (w : MysqlRuntime) (i : ℕ) (opt : LuaValue) :
    (w.fetchAll atof i opt none).1 = (cursorFetchAll atof w.registry (w.cursors i).cur opt).1 ∧
      (w.fetchAll atof i opt none).2.registry = (cursorFetchAll atof w.registry (w.cursors i).cur opt).2.1 ∧
      ((w.fetchAll atof i opt none).2.cursors i).cur =
        (cursorFetchAll atof w.registry (w.cursors i).cur opt).2.2 := by
  have hset : ∀ cur, ((w.setCursor i cur).cursors i).cur = cur := by
    intro cur
    unfold setCursor
    simp only [Function.update_self]
  unfold fetchAll cursorFetchAll
  by_cases hnone : (w.cursors i).cur.myRes.isNone = true
  · simp only [if_pos hnone, and_self]
  simp only [if_neg hnone]
  by_cases hmode : (!(w.cursors i).cur.fetchAll) = true
  · simp only [if_pos hmode, and_self]
  simp only [if_neg hmode]
  cases hrow : (w.cursors i).cur.fetchRow with
  | mk row cur =>
    cases row with
    | none => exact ⟨rfl, nullify_setCursor w i cur⟩
    | some row =>
      simp only
      by_cases hcols : cur.numcols = 0
      · simp only [if_pos hcols]
        exact ⟨trivial, nullify_setCursor w i cur⟩
      · simp only [if_neg hcols, Option.filter_none]
        generalize cur.fetchFields.fetchLengths.2 = cur'
        cases cur.fetchFields.fetchLengths.1 with
        | false => exact ⟨rfl, rfl, hset cur'⟩
        | true =>
          cases cur'.fields with
          | none => exact ⟨rfl, rfl, hset cur'⟩
          | some fields =>
            cases cur'.myRes with
            | none => exact ⟨rfl, rfl, hset cur'⟩
            | some res => exact ⟨rfl, nullify_setCursor w i cur'⟩

end MysqlRuntime

end Qsf
