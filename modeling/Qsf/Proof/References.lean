import Qsf.Proof.Runtime

/-!
# Who owns a reference in the registry

Servers and timers hold numbers of the registry. `luaL_ref` takes the value on top of the
stack, whatever argument was checked before, and `server:start` gives its old reference
back before it knows that it will get a new one.

* `RefsOwned`: what the ownership of references means in one state.
* `refs_owned_iff`: it holds all along a run exactly when the value on top is the callback,
  and no `start` fails its checks while the server holds a reference (`TakesCallback`).
-/

set_option autoImplicit false

namespace Qsf

namespace Runtime

variable {toInteger : LuaValue → Option ℤ} {w w' : Runtime}

/-- Who may hold a reference. -/
inductive Owner
  | server (i : ℕ)
  | timer (t : ℕ)
  deriving DecidableEq

/-- The reference an owner holds. -/
def refOf (w : Runtime) : Owner → ℤ
  | .server i => (w.servers i).readRef
  | .timer t => (w.timers t).ref

/-- The function it was given. -/
def givenOf (w : Runtime) : Owner → Option LuaValue
  | .server i => (w.servers i).given
  | .timer t => (w.timers t).given

/-- A server that was not collected; a timer that was created and not freed. -/
def Live (w : Runtime) : Owner → Prop
  | .server i => w.Usable i
  | .timer t => t < w.timerCount ∧ (w.timers t).data = true ∧ (w.timers t).freed = 0

/-- The reference denotes `v`. -/
def Denotes (reg : Registry) (ref : ℤ) (v : LuaValue) : Prop := ∃ n : ℕ, ref = n ∧ reg.slot n = some v

/-- **References are owned**: an owner holds none, or one that denotes the function it was
given; no two hold the same; none was released twice. -/
structure RefsOwned (w : Runtime) : Prop where
  held : ∀ o, w.Live o → w.refOf o = LUA_NOREF ∨
    ∃ v, w.givenOf o = some v ∧ Denotes w.registry (w.refOf o) v
  distinct : ∀ o p, w.Live o → w.Live p → w.refOf o = w.refOf p → w.refOf o ≠ LUA_NOREF → o = p
  once : w.registry.fault = false

/-- The reference taken is one to the callback: a `start` that fails its checks finds no
reference to lose, one that passes has the callback on top of the stack (after a failure of
libuv, the callback of the last start that succeeded), and so has `createTimer`. -/
def TakesCallback (toInteger : LuaValue → Option ℤ) (w : Runtime) : RuntimeEvent → Prop
  | .start args r => ∀ i, checkServer args = some i →
    (¬ StartArgs toInteger args → (w.servers i).readRef = LUA_NOREF) ∧
    (StartArgs toInteger args → ¬ r.Failed → luaTop args = luaArg args 4) ∧
    (StartArgs toInteger args → r.Failed → (w.servers i).given = some (luaTop args))
  | .createTimer args rInit rStart =>
    0 ≤ rInit → TimerArgs toInteger args → 0 ≤ rStart → luaTop args = luaArg args 3
  | _ => True

/-! ## The registry -/

section Registry

variable {reg : Registry} {ref : ℤ} {n : ℕ} {v top : LuaValue}

theorem unref_noref : luaLUnref reg LUA_NOREF = reg := rfl

theorem unref_slot : (luaLUnref reg ref).slot n = if ref = n then none else reg.slot n := by
  unfold luaLUnref
  split
  · rw [if_neg (by omega)]
  · rename_i hge
    rw [RefPool.give_slot]
    have hiff : n = ref.toNat ↔ ref = n := by omega
    simp only [hiff]

/-- Giving back a reference that is owned. -/
theorem unref_sound (h : reg.Sound) (hr : ref = LUA_NOREF ∨ ∃ v, Denotes reg ref v) :
    (luaLUnref reg ref).Sound ∧ (luaLUnref reg ref).fault = reg.fault := by
  rcases hr with rfl | ⟨v, n, rfl, hn⟩
  · exact ⟨h, rfl⟩
  · have hge : ¬ (n : ℤ) < 0 := by omega
    unfold luaLUnref
    rw [if_neg hge, Int.toNat_natCast]
    exact ⟨h.give hn, RefPool.give_fault hn⟩

/-- **Taking a reference** to a value that is not `nil`. -/
theorem ref_spec (h : reg.Sound) (ht : top ≠ .nil) :
    ∃ k : ℕ, (luaLRef reg top).1 = k ∧ reg.slot k = none ∧ (luaLRef reg top).2.Sound ∧
      (luaLRef reg top).2.fault = reg.fault ∧
      ∀ n, (luaLRef reg top).2.slot n = if n = k then some top else reg.slot n := by
  unfold luaLRef
  rw [if_neg ht]
  exact ⟨_, rfl, RefPool.take_free h, h.take, RefPool.take_fault, fun n => RefPool.take_slot⟩

/-- What a reference taken from the top of the stack denotes. -/
theorem ref_denotes (h : reg.Sound)
    (hd : (luaLRef reg top).1 = LUA_NOREF ∨ Denotes (luaLRef reg top).2 (luaLRef reg top).1 v) :
    v = top ∨ (luaLRef reg top).1 = LUA_NOREF := by
  by_cases ht : top = .nil
  · have hnil : (luaLRef reg top).1 = LUA_REFNIL := by rw [luaLRef, if_pos ht]
    rw [hnil] at hd ⊢
    rcases hd with hd | ⟨n, hn, -⟩
    · exact .inr hd
    · simp only [LUA_REFNIL] at hn
      omega
  · obtain ⟨k, hk, -, -, -, hslot⟩ := ref_spec h ht
    rcases hd with hd | ⟨n, hn, hv⟩
    · exact .inr hd
    · rw [hk] at hn
      obtain rfl : k = n := by omega
      rw [hslot, if_pos rfl] at hv
      exact .inl (Option.some.inj hv).symm

theorem ref_ne_noref (h : reg.Sound) : (luaLRef reg top).1 ≠ LUA_NOREF := by
  by_cases ht : top = .nil
  · rw [luaLRef, if_pos ht]
    show LUA_REFNIL ≠ LUA_NOREF
    decide
  · obtain ⟨k, hk, -⟩ := ref_spec h ht
    rw [hk, LUA_NOREF]
    omega

end Registry

/-! ## The invariant -/

/-- The invariant of the runs in which every reference taken is one to the callback. -/
structure Owning (w : Runtime) : Prop extends RefsOwned w where
  sound : w.registry.Sound
  given : ∀ o, w.Live o → ∀ v, w.givenOf o = some v → luaIsfunction v = true
  active : ∀ t, t < w.timerCount → (w.timers t).handle.active = true →
    (w.timers t).handle.phase = .init ∧ w.Live (.timer t)
  firing : ∀ t, w.firing = some t → w.Live (.timer t)

/-- A reference that is held, other than that of `o`, is not touched when `o`'s is released. -/
theorem RefsOwned.other (h : w.RefsOwned) {o p : Owner} (ho : w.Live o) (hp : w.Live p)
    (hne : p ≠ o) {n : ℕ} (hn : w.refOf p = n) :
    (luaLUnref w.registry (w.refOf o)).slot n = w.registry.slot n := by
  rw [unref_slot, if_neg]
  intro hon
  refine hne (h.distinct p o hp ho (hn.trans hon.symm) ?_)
  rw [hn, LUA_NOREF]
  omega

/-- The reference of a live owner may be released. -/
theorem RefsOwned.release (h : w.RefsOwned) {o : Owner} (ho : w.Live o) :
    w.refOf o = LUA_NOREF ∨ ∃ v, Denotes w.registry (w.refOf o) v := by
  rcases h.held o ho with hn | ⟨v, -, hv⟩
  · exact .inl hn
  · exact .inr ⟨v, hv⟩

/-- **One owner changes.** The others hold what they held, and it means what it meant. -/
theorem RefsOwned.change (h : w.RefsOwned) (o : Owner)
    (hothers : ∀ p, p ≠ o → w'.Live p →
      w.Live p ∧ w'.refOf p = w.refOf p ∧ w'.givenOf p = w.givenOf p)
    (hslots : ∀ p, p ≠ o → w.Live p → ∀ (n : ℕ) v, w.refOf p = n → w.registry.slot n = some v →
      w'.registry.slot n = some v)
    (ho : w'.Live o → w'.refOf o = LUA_NOREF ∨
      (∃ v, w'.givenOf o = some v ∧ Denotes w'.registry (w'.refOf o) v) ∧
      ∀ p, p ≠ o → w'.Live p → w'.refOf p ≠ w'.refOf o)
    (hfault : w'.registry.fault = false) : w'.RefsOwned := by
  refine ⟨?_, ?_, hfault⟩
  · intro p hp
    by_cases hpo : p = o
    · subst hpo
      rcases ho hp with hn | hd
      · exact .inl hn
      · exact .inr hd.1
    · obtain ⟨hl, hr, hg⟩ := hothers p hpo hp
      rw [hr, hg]
      rcases h.held p hl with hn | ⟨v, hv, n, hn, hs⟩
      · exact .inl hn
      · exact .inr ⟨v, hv, n, hn, hslots p hpo hl n v hn hs⟩
  · intro p q hp hq heq hne
    by_cases hpo : p = o <;> by_cases hqo : q = o
    · rw [hpo, hqo]
    · subst hpo
      rcases ho hp with hn | hd
      · exact absurd hn hne
      · exact absurd heq.symm (hd.2 q hqo hq)
    · subst hqo
      rcases ho hq with hn | hd
      · exact absurd (heq.trans hn) hne
      · exact absurd heq (hd.2 p hpo hp)
    · obtain ⟨hlp, hrp, -⟩ := hothers p hpo hp
      obtain ⟨hlq, hrq, -⟩ := hothers q hqo hq
      rw [hrp] at heq hne
      rw [hrq] at heq
      exact h.distinct p q hlp hlq heq hne

/-- The owner `o` holds a new reference to the value on top of the stack, after the
registry `reg` gave up what `o` held. -/
theorem RefsOwned.taken (h : w.RefsOwned) {o : Owner} {reg : Registry} {top : LuaValue}
    (hreg : reg.Sound) (hfault : reg.fault = false) (ht : top ≠ .nil)
    (hw' : w'.registry = (luaLRef reg top).2) (href : w'.refOf o = (luaLRef reg top).1)
    (hgiven : w'.givenOf o = some top)
    (hothers : ∀ p, p ≠ o → w'.Live p →
      w.Live p ∧ w'.refOf p = w.refOf p ∧ w'.givenOf p = w.givenOf p)
    (hslots : ∀ p, p ≠ o → w.Live p → ∀ (n : ℕ) v, w.refOf p = n → w.registry.slot n = some v →
      reg.slot n = some v) : w'.RefsOwned ∧ w'.registry.Sound := by
  obtain ⟨k, hk, hfree, hsound, hf, hslot⟩ := ref_spec hreg ht
  rw [hk] at href
  have hkeep : ∀ (n : ℕ) v, reg.slot n = some v → n ≠ k := by
    rintro n v hn rfl
    rw [hfree] at hn
    cases hn
  refine ⟨h.change o hothers ?_ (fun _ => .inr ⟨?_, ?_⟩) ?_, by rw [hw']; exact hsound⟩
  · intro p hp hl n v hn hs
    have hs' := hslots p hp hl n v hn hs
    rw [hw', hslot, if_neg (hkeep n v hs')]
    exact hs'
  · refine ⟨top, hgiven, k, href, ?_⟩
    rw [hw', hslot, if_pos rfl]
  · intro p hp hl he
    -- another owner cannot hold the number, which was free
    obtain ⟨hlp, hrp, -⟩ := hothers p hp hl
    rw [href, hrp] at he
    rcases h.held p hlp with hn | ⟨v, -, n, hn, hs⟩
    · rw [hn, LUA_NOREF] at he
      omega
    · obtain rfl : n = k := by omega
      exact hkeep n v (hslots p hp hlp n v hn hs) rfl
  · rw [hw', hf, hfault]

theorem function_ne_nil {v : LuaValue} (h : luaIsfunction v = true) : v ≠ .nil := by
  rintro rfl
  cases h

/-- Nothing about owners and the registry changes, but that some may die. -/
theorem Owning.mono (h : w.Owning) (hreg : w'.registry = w.registry)
    (hlive : ∀ p, w'.Live p → w.Live p ∧ w'.refOf p = w.refOf p ∧ w'.givenOf p = w.givenOf p)
    (hact : ∀ t, t < w'.timerCount → (w'.timers t).handle.active = true →
      (w'.timers t).handle.phase = .init ∧ w'.Live (.timer t))
    (hfire : ∀ t, w'.firing = some t → w'.Live (.timer t)) : w'.Owning where
  held p hp := by
    obtain ⟨hl, hr, hg⟩ := hlive p hp
    rw [hr, hg, hreg]
    exact h.held p hl
  distinct p q hp hq heq hne := by
    obtain ⟨hlp, hrp, -⟩ := hlive p hp
    obtain ⟨hlq, hrq, -⟩ := hlive q hq
    rw [hrp] at heq hne
    rw [hrq] at heq
    exact h.distinct p q hlp hlq heq hne
  once := by rw [hreg]; exact h.once
  sound := by rw [hreg]; exact h.sound
  given p hp v hv := by
    obtain ⟨hl, -, hg⟩ := hlive p hp
    exact h.given p hl v (hg ▸ hv)
  active := hact
  firing := hfire

/-! ## Steps -/

/-- Server `i` changes, with the registry; the other owners stay. -/
theorem setServer_others (i : ℕ) (o : LuaServer) (reg : Registry)
    (hcol : (w.servers i).collected = false) (hi : i < w.serverCount) :
    ∀ p, (({ w with registry := reg } : Runtime).setServer i o).Live p →
      w.Live p ∧ (p ≠ .server i →
        (({ w with registry := reg } : Runtime).setServer i o).refOf p = w.refOf p ∧
        (({ w with registry := reg } : Runtime).setServer i o).givenOf p = w.givenOf p) := by
  intro p hp
  cases p with
  | timer t => exact ⟨hp, fun _ => ⟨rfl, rfl⟩⟩
  | server j =>
    have hlook : (({ w with registry := reg } : Runtime).setServer i o).servers j =
        if j = i then o else w.servers j := setServer_eq i j o
    by_cases hji : j = i
    · subst hji
      exact ⟨⟨hi, hcol⟩, fun h => absurd rfl h⟩
    · rw [if_neg hji] at hlook
      refine ⟨⟨hp.1, ?_⟩, fun _ => ⟨?_, ?_⟩⟩
      · have hcol' := hp.2
        rw [hlook] at hcol'
        exact hcol'
      · simp only [refOf, hlook]
      · simp only [givenOf, hlook]

theorem owning_start {args : List LuaValue} {r : StartResult} (h : w.Owning)
    (he : w.enabled (.start args r)) (hc : TakesCallback toInteger w (.start args r)) :
    (serverStart toInteger w args r).1.Owning := by
  rcases serverStart_cases toInteger w args r with
    ⟨-, hs⟩ | ⟨i, hi, ⟨hargs, hs⟩ | ⟨hargs, hs⟩⟩
  · rw [hs]; exact h
  · -- the checks fail, and there is no reference to lose
    rw [hs, (hc i hi).1 hargs, unref_noref]
    exact h
  · have hu : w.Usable i := he i hi
    have hlive : w.Live (.server i) := hu
    have hgiven : (if ((w.servers i).c.qsfNetServerStart r).1 < 0 then (w.servers i).given
        else some (luaArg args 4)) = some (luaTop args) := by
      by_cases hf : r.Failed
      · rw [if_pos ((Server.start_failed r).2 hf)]
        exact (hc i hi).2.2 hargs hf
      · rw [if_neg (fun hlt => hf ((Server.start_failed r).1 hlt)), (hc i hi).2.1 hargs hf]
    have hfun : luaIsfunction (luaTop args) = true := by
      by_cases hf : r.Failed
      · exact h.given (.server i) hlive _ ((hc i hi).2.2 hargs hf)
      · rw [(hc i hi).2.1 hargs hf]
        exact hargs.2.2
    obtain ⟨hsound, hfault⟩ := unref_sound h.sound (h.release hlive)
    rw [hgiven] at hs
    rw [hs]
    have hothers := setServer_others (w := w) i { w.servers i with
      c := ((w.servers i).c.qsfNetServerStart r).2
      readRef := (luaLRef (luaLUnref w.registry (w.servers i).readRef) (luaTop args)).1
      given := some (luaTop args) }
      (luaLRef (luaLUnref w.registry (w.servers i).readRef) (luaTop args)).2 hu.2 hu.1
    obtain ⟨howned, hsound'⟩ := h.toRefsOwned.taken (o := .server i) hsound (hfault.trans h.once)
      (function_ne_nil hfun) rfl
      (by simp only [refOf, setServer_eq, if_true]) (by simp only [givenOf, setServer_eq, if_true])
      (fun p hp hl => ⟨(hothers p hl).1, (hothers p hl).2 hp⟩)
      (fun p hp hl n v hn hv => (h.other hlive hl hp hn).trans hv)
    refine ⟨howned, hsound', ?_, h.active, h.firing⟩
    intro p hp v hv
    by_cases hpi : p = .server i
    · subst hpi
      simp only [givenOf, setServer_eq, if_true, Option.some.injEq] at hv
      rw [← hv]
      exact hfun
    · rw [((hothers p hp).2 hpi).2] at hv
      exact h.given p (hothers p hp).1 v hv

/-- A new timer, with a registry that may have changed. -/
theorem newTimer_others {o : LuvTimer} {reg : Registry} :
    ∀ p, p ≠ .timer w.timerCount →
      (({ w with timerCount := w.timerCount + 1, registry := reg } : Runtime).setTimer
        w.timerCount o).Live p →
      w.Live p ∧
        (({ w with timerCount := w.timerCount + 1, registry := reg } : Runtime).setTimer
          w.timerCount o).refOf p = w.refOf p ∧
        (({ w with timerCount := w.timerCount + 1, registry := reg } : Runtime).setTimer
          w.timerCount o).givenOf p = w.givenOf p := by
  intro p hne hp
  cases p with
  | server i => exact ⟨hp, rfl, rfl⟩
  | timer t =>
    have hlook : (({ w with timerCount := w.timerCount + 1, registry := reg } : Runtime).setTimer
        w.timerCount o).timers t = w.timers t := by
      rw [setTimer_eq, if_neg (fun e : t = w.timerCount => hne (congrArg Owner.timer e))]
    have hp1 : t < w.timerCount + 1 := hp.1
    have hp2 := hp.2
    rw [hlook] at hp2
    have htc : t ≠ w.timerCount := fun e => hne (congrArg Owner.timer e)
    exact ⟨⟨by omega, hp2⟩, by simp only [refOf, hlook], by simp only [givenOf, hlook]⟩

/-- The rest of the invariant, for a new timer. -/
theorem Owning.newTimer (h : w.Owning) {o : LuvTimer} {reg : Registry}
    (howned : (({ w with timerCount := w.timerCount + 1, registry := reg } : Runtime).setTimer
      w.timerCount o).RefsOwned) (hsound : reg.Sound)
    (hgiven : o.data = true → o.freed = 0 → ∀ v, o.given = some v → luaIsfunction v = true)
    (hact : o.handle.active = true → o.handle.phase = .init ∧ o.data = true ∧ o.freed = 0) :
    (({ w with timerCount := w.timerCount + 1, registry := reg } : Runtime).setTimer
      w.timerCount o).Owning := by
  set w' := (({ w with timerCount := w.timerCount + 1, registry := reg } : Runtime).setTimer
    w.timerCount o) with hw'
  have hlook : ∀ t, w'.timers t = if t = w.timerCount then o else w.timers t :=
    fun t => setTimer_eq _ t o
  have hold : ∀ t, w.Live (.timer t) → w'.Live (.timer t) := by
    intro t ht
    have hne : t ≠ w.timerCount := Nat.ne_of_lt ht.1
    refine ⟨Nat.lt_succ_of_lt ht.1, ?_⟩
    rw [hlook, if_neg hne]
    exact ht.2
  refine ⟨howned, hsound, ?_, ?_, fun t ht => hold t (h.firing t ht)⟩
  · intro p hp v hv
    by_cases hpt : p = .timer w.timerCount
    · subst hpt
      have hp2 := hp.2
      simp only [givenOf, hlook, if_true] at hv hp2
      exact hgiven hp2.1 hp2.2 v hv
    · obtain ⟨hl, -, hg⟩ := newTimer_others p hpt hp
      rw [hg] at hv
      exact h.given p hl v hv
  · intro t ht hact'
    have ht' : t < w.timerCount + 1 := ht
    rw [hlook] at hact' ⊢
    by_cases htc : t = w.timerCount
    · subst htc
      rw [if_pos rfl] at hact' ⊢
      obtain ⟨hph, hd, hf⟩ := hact hact'
      refine ⟨hph, Nat.lt_succ_self _, ?_⟩
      rw [hlook, if_pos rfl]
      exact ⟨hd, hf⟩
    · rw [if_neg htc] at hact' ⊢
      obtain ⟨hph, hl⟩ := h.active t (by omega) hact'
      exact ⟨hph, hold t hl⟩

/-- A timer that never lives, with a registry that means what it meant. -/
theorem Owning.deadTimer (h : w.Owning) {o : LuvTimer} (reg : Registry)
    (hdead : ¬ (o.data = true ∧ o.freed = 0)) (hact : o.handle.active = false)
    (hsound : reg.Sound) (hfault : reg.fault = false) (hslot : ∀ n, reg.slot n = w.registry.slot n) :
    (({ w with timerCount := w.timerCount + 1, registry := reg } : Runtime).setTimer
      w.timerCount o).Owning := by
  refine h.newTimer (h.toRefsOwned.change (.timer w.timerCount) newTimer_others
    (fun p _ _ n v _ hv => (hslot n).trans hv) ?_ hfault) hsound
    (fun hd hf => absurd ⟨hd, hf⟩ hdead) ?_
  · intro hl
    have hl2 := hl.2
    rw [setTimer_eq, if_pos rfl] at hl2
    exact absurd hl2 hdead
  · intro ha
    rw [hact] at ha
    cases ha

theorem owning_createTimer {args : List LuaValue} {rInit rStart : ℤ} (h : w.Owning)
    (hc : TakesCallback toInteger w (.createTimer args rInit rStart)) :
    (luvNewTimer toInteger w args rInit rStart).1.Owning := by
  rcases luvNewTimer_cases toInteger w args rInit rStart with
    ⟨-, hs⟩ | ⟨-, -, hs⟩ | ⟨-, -, -, hs⟩ | ⟨hi, hargs, hst, m, hs⟩
  · rw [hs]
    exact h.deadTimer w.registry (by simp [LuvTimer.zero]) rfl h.sound h.once (fun _ => rfl)
  · rw [hs]
    exact h.deadTimer w.registry (by simp [LuvTimer.zero]) rfl h.sound h.once (fun _ => rfl)
  · -- the reference is taken and given back
    rw [hs]
    by_cases ht : luaTop args = .nil
    · have hreg : luaLUnref (luaLRef w.registry (luaTop args)).2 (luaLRef w.registry (luaTop args)).1 =
          w.registry := by
        rw [luaLRef, if_pos ht]
        rfl
      rw [hreg]
      exact h.deadTimer _ (by simp) rfl h.sound h.once (fun _ => rfl)
    · obtain ⟨k, hk, hfree, hsound, hf, hslot⟩ := ref_spec h.sound ht
      have hin : (luaLRef w.registry (luaTop args)).2.slot k = some (luaTop args) := by
        rw [hslot, if_pos rfl]
      obtain ⟨hsound', hf'⟩ := unref_sound hsound (.inr ⟨luaTop args, k, hk, hin⟩)
      apply h.deadTimer _ (by simp) rfl hsound' (hf'.trans (hf.trans h.once))
      intro n
      rw [unref_slot, hk, hslot]
      by_cases hn : n = k
      · rw [hn, if_pos rfl, hfree]
      · have hkn : ¬ (k : ℤ) = n := by omega
        rw [if_neg hkn, if_neg hn]
  · have htop := hc hi hargs hst
    have hfun : luaIsfunction (luaTop args) = true := htop ▸ hargs.2.2
    set o : LuvTimer := { LuvTimer.zero with
      handle := uvStart uvInit
      repeatMs := m
      ref := (luaLRef w.registry (luaTop args)).1
      data := true
      given := some (luaArg args 3) } with ho
    set w' : Runtime := { w with
      timerCount := w.timerCount + 1
      registry := (luaLRef w.registry (luaTop args)).2 }.setTimer w.timerCount o with hw'
    have hlook : w'.timers w.timerCount = o := (setTimer_eq _ _ o).trans (if_pos rfl)
    rw [hs]
    obtain ⟨howned, hsound⟩ : w'.RefsOwned ∧ w'.registry.Sound := h.toRefsOwned.taken
      (o := .timer w.timerCount) h.sound h.once (function_ne_nil hfun) rfl (by simp only [refOf, hlook, ho])
      (by simp only [givenOf, hlook, ho, htop]) newTimer_others (fun p _ _ n v _ hv => hv)
    refine h.newTimer howned hsound ?_ (fun _ => ⟨rfl, rfl, rfl⟩)
    intro _ _ v hv
    rw [← Option.some.inj hv]
    exact hargs.2.2

theorem owning_gc {i : ℕ} (h : w.Owning) (hu : w.Usable i) : (w.serverGc i).Owning := by
  have hlive : w.Live (.server i) := hu
  obtain ⟨hsound, hfault⟩ := unref_sound h.sound (h.release hlive)
  have hothers := setServer_others (w := w) i
    { w.servers i with c := (w.servers i).c.qsfNetServerDestroy, collected := true }
    (luaLUnref w.registry (w.servers i).readRef) hu.2 hu.1
  have hgone : ¬ (w.serverGc i).Live (.server i) := by
    intro hl
    have hcol := hl.2
    change ((w.setServer i _).servers i).collected = false at hcol
    rw [setServer_eq, if_pos rfl] at hcol
    cases hcol
  have howned : (w.serverGc i).RefsOwned :=
    h.toRefsOwned.change (.server i) (fun p hp hl => ⟨(hothers p hl).1, (hothers p hl).2 hp⟩)
      (fun p hp hl n v hn hv => (h.other hlive hl hp hn).trans hv) (fun hl => absurd hl hgone)
      (hfault.trans h.once)
  refine ⟨howned, hsound, ?_, h.active, h.firing⟩
  intro p hp v hv
  have hne : p ≠ .server i := fun e => hgone (e ▸ hp)
  have hg := ((hothers p hp).2 hne).2
  exact h.given p (hothers p hp).1 v (hg ▸ hv)

theorem owning_done {t : ℕ} (h : w.Owning) (hf : w.firing = some t) : (w.doneTimer t).Owning := by
  have hlive := h.firing t hf
  unfold doneTimer
  simp only
  split
  · exact ⟨⟨h.held, h.distinct, h.once⟩, h.sound, h.given, h.active, fun k hk => by cases hk⟩
  · rename_i hinact
    obtain ⟨hsound, hfault⟩ := unref_sound h.sound (h.release hlive)
    set o : LuvTimer :=
      { w.timers t with ref := LUA_NOREF, handle := uvCloseOnce (w.timers t).handle } with ho
    set w' : Runtime := { ({ w with firing := none } : Runtime).setTimer t o with
      registry := luaLUnref w.registry (w.timers t).ref } with hw'
    have hlook : ∀ k, w'.timers k = if k = t then o else w.timers k := fun k => setTimer_eq t k o
    have hothers : ∀ p, w'.Live p → w.Live p ∧ w'.givenOf p = w.givenOf p ∧
        (p ≠ .timer t → w'.refOf p = w.refOf p) := by
      intro p hp
      cases p with
      | server i => exact ⟨hp, rfl, fun _ => rfl⟩
      | timer k =>
        by_cases hk : k = t
        · subst hk
          exact ⟨hlive, by simp only [givenOf, hlook, if_true, ho], fun hne => absurd rfl hne⟩
        · have hp2 := hp.2
          rw [hlook, if_neg hk] at hp2
          exact ⟨⟨hp.1, hp2⟩, by simp only [givenOf, hlook, if_neg hk],
            fun _ => by simp only [refOf, hlook, if_neg hk]⟩
    have howned : w'.RefsOwned :=
      h.toRefsOwned.change (.timer t)
        (fun p hp hl => ⟨(hothers p hl).1, (hothers p hl).2.2 hp, (hothers p hl).2.1⟩)
        (fun p hp hl n v hn hv => (h.other hlive hl hp hn).trans hv)
        (fun _ => .inl (by simp only [refOf, hlook, if_true, ho])) (hfault.trans h.once)
    refine ⟨howned, hsound, ?_, ?_, fun k hk => by cases hk⟩
    · intro p hp v hv
      rw [(hothers p hp).2.1] at hv
      exact h.given p (hothers p hp).1 v hv
    · intro k hk hact
      rw [hlook] at hact ⊢
      by_cases hkt : k = t
      · rw [if_pos hkt, ho] at hact
        have hoff : (uvCloseOnce (w.timers t).handle).active = false := by
          unfold uvCloseOnce
          split
          · simpa using hinact
          · rfl
        rw [hoff] at hact
        cases hact
      · rw [if_neg hkt] at hact ⊢
        obtain ⟨hph, hl⟩ := h.active k hk hact
        refine ⟨hph, hl.1, ?_⟩
        rw [hlook, if_neg hkt]
        exact hl.2

theorem owning_fire {t : ℕ} (h : w.Owning) (he : w.enabled (.fire t)) : (w.fireTimer t).Owning := by
  obtain ⟨ht, hact, -⟩ := he
  obtain ⟨-, hlive⟩ := h.active t ht hact
  have hlook : ∀ k, (w.fireTimer t).timers k = if k = t then { w.timers t with
      handle := if (w.timers t).repeatMs = 0 then uvStop (w.timers t).handle else (w.timers t).handle }
      else w.timers k := fun k => setTimer_eq t k _
  have hsame : ∀ k, (w.fireTimer t).timers k = { w.timers k with
      handle := ((w.fireTimer t).timers k).handle } := by
    intro k
    rw [hlook]
    split
    · rename_i hk; rw [hk]
    · rfl
  have hiff : ∀ p, (w.fireTimer t).Live p ↔ w.Live p := by
    intro p
    cases p with
    | server i => exact Iff.rfl
    | timer k =>
      simp only [Live]
      rw [hsame k]
      exact Iff.rfl
  refine h.mono rfl (fun p hp => ⟨(hiff p).1 hp, ?_⟩) ?_ ?_
  · cases p with
    | server i => exact ⟨rfl, rfl⟩
    | timer k =>
      simp only [refOf, givenOf]
      rw [hsame k]
      exact ⟨rfl, rfl⟩
  · intro k hk hact'
    rw [hiff]
    rw [hlook] at hact' ⊢
    by_cases hkt : k = t
    · subst hkt
      rw [if_pos rfl] at hact' ⊢
      simp only at hact' ⊢
      split at hact'
      · cases hact'
      · rename_i hrep
        rw [if_neg hrep]
        exact h.active k hk hact'
    · rw [if_neg hkt] at hact' ⊢
      exact h.active k hk hact'
  · intro k hk
    obtain rfl : t = k := Option.some.inj hk
    exact (hiff _).2 hlive

theorem owning_turn (h : w.Owning) (hf : w.firing = none) : w.loopTurn.Owning := by
  have htimer : ∀ t, w.loopTurn.timers t = timerTurn (w.timers t) := fun _ => rfl
  refine h.mono rfl ?_ ?_ ?_
  · intro p hp
    cases p with
    | server i => exact ⟨hp, rfl, rfl⟩
    | timer t =>
      have hp2 := hp.2
      simp only [refOf, givenOf, htimer]
      rw [htimer] at hp2
      unfold timerTurn at hp2 ⊢
      split at hp2
      · exact absurd hp2.2 (Nat.succ_ne_zero _)
      · rename_i hc
        rw [if_neg hc]
        exact ⟨⟨hp.1, hp2⟩, rfl, rfl⟩
  · intro t ht hact
    rw [htimer] at hact ⊢
    have hact' : (w.timers t).handle.active = true := by
      unfold timerTurn at hact
      split at hact
      · rw [← Server.uvTurn_active]
        exact hact
      · exact hact
    obtain ⟨hph, hl⟩ := h.active t ht hact'
    have hsame : timerTurn (w.timers t) = w.timers t := by
      unfold timerTurn
      rw [if_neg (by rw [hph]; decide)]
    refine ⟨by rw [hsame]; exact hph, hl.1, ?_⟩
    rw [htimer, hsame]
    exact hl.2
  · intro t ht
    change w.firing = some t at ht
    rw [hf] at ht
    cases ht

theorem owning_createServer (h : w.Owning) (args : List LuaValue) :
    (createServer toInteger w args).1.Owning := by
  rcases createServer_cases toInteger w args with hs | ⟨m, b, c, hs⟩
  · rw [hs]; exact h
  rw [hs]
  set o : LuaServer := ⟨Server.qsfCreateNetServer m b c, LUA_NOREF, false, none⟩ with ho
  set w' : Runtime := { w.setServer w.serverCount o with serverCount := w.serverCount + 1 } with hw'
  have hlook : ∀ j, w'.servers j = if j = w.serverCount then o else w.servers j :=
    fun j => setServer_eq _ j o
  have hothers : ∀ p, p ≠ .server w.serverCount → w'.Live p →
      w.Live p ∧ w'.refOf p = w.refOf p ∧ w'.givenOf p = w.givenOf p := by
    intro p hne hp
    cases p with
    | timer t => exact ⟨hp, rfl, rfl⟩
    | server j =>
      have hj : j ≠ w.serverCount := fun e => hne (congrArg Owner.server e)
      have hp1 : j < w.serverCount + 1 := hp.1
      have hp2 := hp.2
      rw [hlook, if_neg hj] at hp2
      exact ⟨⟨by omega, hp2⟩, by simp only [refOf, hlook, if_neg hj],
        by simp only [givenOf, hlook, if_neg hj]⟩
  refine ⟨h.toRefsOwned.change (.server w.serverCount) hothers (fun p _ _ n v _ hv => hv)
    (fun _ => .inl (by simp only [refOf, hlook, if_true, ho])) h.once, h.sound,
    ?_, h.active, h.firing⟩
  intro p hp v hv
  by_cases hp' : p = .server w.serverCount
  · -- a new server was given nothing
    subst hp'
    simp only [givenOf, hlook, if_true, ho] at hv
    cases hv
  · obtain ⟨hl, -, hg⟩ := hothers p hp' hp
    exact h.given p hl v (hg ▸ hv)

/-- What happens to a server leaves its reference alone. -/
theorem owning_net {i : ℕ} (h : w.Owning) (hu : w.Usable i) (e : Event) : (w.netStep i e).Owning := by
  have hothers := setServer_others (w := w) i { w.servers i with
    c := (w.servers i).c.step { e with cb := w.onServerRead i e.cb } } w.registry hu.2 hu.1
  refine h.mono rfl (fun p hp => ⟨(hothers p hp).1, ?_⟩) h.active h.firing
  by_cases hp' : p = .server i
  · subst hp'
    simp only [refOf, givenOf, netStep, setServer_eq, if_true, and_self]
  · exact (hothers p hp).2 hp'

/-- **One event that takes references to callbacks only.** -/
theorem owning_step {e : RuntimeEvent} (h : w.Owning) (he : w.enabled e)
    (hc : TakesCallback toInteger w e) : (step toInteger w e).Owning := by
  cases e with
  | createServer args => exact owning_createServer h args
  | start args r => exact owning_start h he hc
  | net i e => exact owning_net h he.1 e
  | gc i => exact owning_gc h he
  | createTimer args rInit rStart => exact owning_createTimer h hc
  | fire t => exact owning_fire h he
  | done t => exact owning_done h he
  | turn => exact owning_turn h he

/-! ## Events that break it -/

theorem break_start {args : List LuaValue} {r : StartResult} (h : w.Owning)
    (he : w.enabled (.start args r))
    (hc : ¬ TakesCallback toInteger w (.start args r)) : ¬ (serverStart toInteger w args r).1.RefsOwned := by
  intro hown
  simp only [TakesCallback, not_forall] at hc
  obtain ⟨i, hi, hc⟩ := hc
  have hu : w.Usable i := he i hi
  have hlive : w.Live (.server i) := hu
  rcases serverStart_cases toInteger w args r with ⟨hnone, -⟩ | ⟨j, hj, hcases⟩
  · rw [hi] at hnone
    cases hnone
  obtain rfl : i = j := Option.some.inj (hi.symm.trans hj)
  rcases hcases with ⟨hargs, hs⟩ | ⟨hargs, hs⟩
  · -- the checks fail: the server keeps a reference it has given back
    have href : (w.servers i).readRef ≠ LUA_NOREF := fun hn =>
      hc ⟨fun _ => hn, fun h => absurd h hargs, fun h => absurd h hargs⟩
    rw [hs] at hown
    rcases hown.held (.server i) hlive with hn | ⟨v, -, n, hn, hv⟩
    · exact href hn
    · change (luaLUnref w.registry (w.servers i).readRef).slot n = some v at hv
      have hn' : (w.servers i).readRef = n := hn
      rw [unref_slot, if_pos hn'] at hv
      cases hv
  · -- the checks pass: the reference denotes the value on top, which is not the callback
    obtain ⟨hsound, -⟩ := unref_sound h.sound (h.release hlive)
    rw [hs] at hown
    set reg := luaLUnref w.registry (w.servers i).readRef
    have hheld := hown.held (.server i) ⟨hu.1, by rw [setServer_eq, if_pos rfl]; exact hu.2⟩
    simp only [refOf, givenOf, setServer_eq, if_true] at hheld
    have hgiven : (if ((w.servers i).c.qsfNetServerStart r).1 < 0 then (w.servers i).given
        else some (luaArg args 4)) = some (luaTop args) := by
      rcases hheld with hn | ⟨v, hg, hd⟩
      · exact absurd hn (ref_ne_noref hsound)
      · rcases ref_denotes hsound (.inr hd) with rfl | hn
        · exact hg
        · exact absurd hn (ref_ne_noref hsound)
    refine hc ⟨fun h => absurd hargs h, ?_, ?_⟩
    · intro _ hf
      rw [if_neg (fun hlt => hf ((Server.start_failed r).1 hlt))] at hgiven
      exact (Option.some.inj hgiven).symm
    · intro _ hf
      rw [if_pos ((Server.start_failed r).2 hf)] at hgiven
      exact hgiven

theorem break_createTimer {args : List LuaValue} {rInit rStart : ℤ} (h : w.Owning)
    (hc : ¬ TakesCallback toInteger w (.createTimer args rInit rStart)) :
    ¬ (luvNewTimer toInteger w args rInit rStart).1.RefsOwned := by
  intro hown
  simp only [TakesCallback, not_forall] at hc
  obtain ⟨hi, hargs, hst, htop⟩ := hc
  rcases luvNewTimer_cases toInteger w args rInit rStart with
    ⟨hi', -⟩ | ⟨-, hargs', -⟩ | ⟨-, -, hst', -⟩ | ⟨-, -, -, m, hs⟩
  · omega
  · exact hargs' hargs
  · omega
  · rw [hs] at hown
    have hlive' := hown.held (.timer w.timerCount) ⟨Nat.lt_succ_self _, by
      rw [setTimer_eq, if_pos rfl]; exact ⟨rfl, rfl⟩⟩
    simp only [refOf, givenOf, setTimer_eq, if_true] at hlive'
    rcases hlive' with hn | ⟨v, hg, hd⟩
    · exact absurd hn (ref_ne_noref h.sound)
    · rcases ref_denotes h.sound (.inr hd) with rfl | hn
      · exact htop (Option.some.inj hg).symm
      · exact absurd hn (ref_ne_noref h.sound)

/-- **An event that takes a reference to something else**, or loses the one it had. -/
theorem owning_break {e : RuntimeEvent} (h : w.Owning) (he : w.enabled e)
    (hc : ¬ TakesCallback toInteger w e) : ¬ (step toInteger w e).RefsOwned := by
  cases e with
  | start args r => exact break_start h he hc
  | createTimer args rInit rStart => exact break_createTimer h hc
  | createServer | net | gc | fire | done | turn => exact absurd trivial hc

theorem owning_init : Runtime.init.Owning where
  held o ho := by cases o <;> exact absurd ho.1 (Nat.not_lt_zero _)
  distinct o p ho := by cases o <;> exact absurd ho.1 (Nat.not_lt_zero _)
  once := rfl
  sound := RefPool.sound_init 3
  given o ho := by cases o <;> exact absurd ho.1 (Nat.not_lt_zero _)
  active t ht := absurd ht (Nat.not_lt_zero t)
  firing t ht := by cases ht

/-- **References are owned exactly in the runs where every reference taken is one to the
callback.** -/
theorem refs_owned_iff {w₀ : Runtime} {es : List RuntimeEvent} (h₀ : (luaRuntime toInteger).init w₀)
    (hr : (luaRuntime toInteger).Runs w₀ es) :
    (luaRuntime toInteger).Along RefsOwned w₀ es ↔
      (luaRuntime toInteger).Meets (TakesCallback toInteger) w₀ es := by
  obtain rfl : w₀ = Runtime.init := h₀
  exact Machine.along_iff_meets (I := Owning) (fun _ _ h he hc => owning_step h he hc)
    (fun _ _ h he hc => owning_break h he hc) (fun _ h => h.toRefsOwned) owning_init hr

/-- A conversion that accepts integers only. -/
def integerOnly : LuaValue → Option ℤ
  | .integer n => some n
  | _ => none

/-- The arguments of a call `server:start(host, 80, f)`. -/
def startCall (f : LuaValue) : List LuaValue := [.userdata 0, .string [49], .integer 80, f]

/-- A server that is started, and a timer that expires. -/
theorem refs_owned_iff_timer : (luaRuntime integerOnly).Along RefsOwned Runtime.init
    [.createServer [], .start (startCall (.function 7)) ⟨0, 0, 0, 0⟩,
      .createTimer [.integer 1, .integer 0, .function 8] 0 0, .fire 0, .done 0] := by
  set es : List RuntimeEvent := [.createServer [], .start (startCall (.function 7)) ⟨0, 0, 0, 0⟩,
    .createTimer [.integer 1, .integer 0, .function 8] 0 0, .fire 0, .done 0]
  have hr : (luaRuntime integerOnly).Runs Runtime.init es := by
    refine ⟨trivial, ?_, trivial, ⟨Nat.one_pos, rfl, rfl⟩, rfl, trivial⟩
    intro i hi
    obtain rfl : 0 = i := Option.some.inj hi
    exact ⟨Nat.one_pos, rfl⟩
  refine (refs_owned_iff rfl hr).2 ⟨trivial, fun i _ => ⟨?_, fun _ _ => rfl, ?_⟩,
    fun _ _ _ => rfl, trivial, trivial, trivial⟩
  · intro h
    exact absurd ⟨rfl, by decide, rfl⟩ h
  · intro _ hf
    unfold StartResult.Failed at hf
    simp at hf

/-- **A `start` that fails its checks** leaves the server with a number it has given back;
the next timer gets the same number, and the server now holds the callback of the timer. -/
theorem failed_start_shares :
    let es : List RuntimeEvent := [.createServer [], .start (startCall (.function 7)) ⟨0, 0, 0, 0⟩,
      .start [.userdata 0] ⟨0, 0, 0, 0⟩, .createTimer [.integer 1, .integer 0, .function 8] 0 0]
    let w := (luaRuntime integerOnly).exec Runtime.init es
    (luaRuntime integerOnly).Runs Runtime.init es ∧ w.Live (.server 0) ∧ w.Live (.timer 0) ∧
      w.refOf (.server 0) = 3 ∧ w.refOf (.timer 0) = 3 ∧
      w.registry.slot 3 = some (.function 8) ∧ w.givenOf (.server 0) = some (.function 7) ∧
      ¬ (luaRuntime integerOnly).Along RefsOwned Runtime.init es := by
  refine ⟨⟨trivial, ?_, ?_, trivial, trivial⟩, ⟨Nat.one_pos, rfl⟩,
    ⟨Nat.one_pos, rfl, rfl⟩, rfl, rfl, rfl, rfl, ?_⟩
  · intro i hi
    obtain rfl : 0 = i := Option.some.inj hi
    exact ⟨Nat.one_pos, rfl⟩
  · intro i hi
    obtain rfl : 0 = i := Option.some.inj hi
    exact ⟨Nat.one_pos, rfl⟩
  · intro h
    have hsame := h.last.distinct (.server 0) (.timer 0) ⟨Nat.one_pos, rfl⟩
      ⟨Nat.one_pos, rfl, rfl⟩ rfl (by decide)
    cases hsame

end Runtime

end Qsf
