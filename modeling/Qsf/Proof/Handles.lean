import Qsf.Proof.Runtime

/-!
# The life of libuv handles

An object with a libuv handle in it may be freed once the handle is closed: `uv_close` was
called, and a later turn of the loop ran the close callback. Sessions and expired timers
are freed there. A server is freed by the collector, at once, and a timer that could not
be started is freed with its handle open.

* `FreedClosed`: what the lifetimes of handles mean in one state.
* `freed_closed_iff`: it holds all along a run exactly when no event frees an object with
  an open handle (`FreesClosed`).
-/

set_option autoImplicit false

namespace Qsf

namespace Runtime

variable {toInteger : LuaValue → Option ℤ} {w : Runtime}

/-- **Objects are freed at most once, with their handles closed.** A timer whose
`uv_timer_init` failed has no handle to close. -/
structure FreedClosed (w : Runtime) : Prop where
  servers : ∀ i, i < w.serverCount → (w.servers i).c.freed ≤ 1 ∧
    (0 < (w.servers i).c.freed →
      (w.servers i).c.acceptor.phase = .closed ∧ (w.servers i).c.timer.phase = .closed)
  sessions : ∀ i, i < w.serverCount → ∀ a, ((w.servers i).c.sess a).freed ≤ 1 ∧
    (0 < ((w.servers i).c.sess a).freed → ((w.servers i).c.sess a).handle.phase = .closed)
  timers : ∀ t, t < w.timerCount → (w.timers t).freed ≤ 1 ∧
    (0 < (w.timers t).freed →
      (w.timers t).handle.phase = .closed ∨ (w.timers t).handle.phase = .raw)

/-- The event frees no object with an open handle: a server is collected after its two
handles were closed, and no timer fails to start. -/
def FreesClosed (toInteger : LuaValue → Option ℤ) (w : Runtime) : RuntimeEvent → Prop
  | .gc i => (w.servers i).c.acceptor.phase = .closed ∧ (w.servers i).c.timer.phase = .closed
  | .createTimer args rInit rStart => 0 ≤ rInit → TimerArgs toInteger args → 0 ≤ rStart
  | _ => True

/-- The timer was freed by its close callback, or has no handle. -/
structure TimerRight (timer : LuvTimer) : Prop where
  freed : timer.freed = if timer.handle.phase = .closed ∨ timer.handle.phase = .raw then 1 else 0
  raw : timer.handle.phase = .raw → timer.handle.active = false

/-- The invariant of the runs in which every event frees closed objects. -/
structure Lifetimes (w : Runtime) : Prop where
  live : ∀ i, i < w.serverCount → (w.servers i).collected = false → (w.servers i).c.Intact 0
  dead : ∀ i, i < w.serverCount → (w.servers i).collected = true → (w.servers i).c.Intact 1 ∧
    (w.servers i).c.acceptor.phase = .closed ∧ (w.servers i).c.timer.phase = .closed
  timers : ∀ t, t < w.timerCount → TimerRight (w.timers t)
  firing : ∀ t, w.firing = some t → t < w.timerCount ∧ (w.timers t).handle.phase ≠ .raw

theorem Lifetimes.freedClosed (h : w.Lifetimes) : w.FreedClosed := by
  have hsess : ∀ i, i < w.serverCount → ∀ a, ((w.servers i).c.sess a).FreedRight := by
    intro i hi a
    cases hc : (w.servers i).collected with
    | false => exact (h.live i hi hc).sessions a
    | true => exact (h.dead i hi hc).1.sessions a
  refine ⟨?_, ?_, ?_⟩
  · intro i hi
    cases hc : (w.servers i).collected with
    | false =>
      have hf := (h.live i hi hc).freed
      exact ⟨by omega, fun hpos => by omega⟩
    | true =>
      have hd := h.dead i hi hc
      exact ⟨hd.1.freed.le, fun _ => hd.2⟩
  · intro i hi a
    have hf : ((w.servers i).c.sess a).freed = _ := hsess i hi a
    split at hf
    · rename_i hp; exact ⟨hf.le, fun _ => hp⟩
    · exact ⟨by omega, fun hpos => by omega⟩
  · intro t ht
    have hf := (h.timers t ht).freed
    split at hf
    · rename_i hp; exact ⟨hf.le, fun _ => hp⟩
    · exact ⟨by omega, fun hpos => by omega⟩

/-! ## Steps -/

/-- A server that is in use goes on as `c`. -/
theorem Lifetimes.setServer (h : w.Lifetimes) {i : ℕ} {o : LuaServer} (ho : o.collected = false)
    (hc : o.c.Intact 0) : (w.setServer i o).Lifetimes := by
  refine ⟨?_, ?_, h.timers, h.firing⟩
  · intro j hj hcol
    rw [setServer_eq] at hcol ⊢
    split
    · exact hc
    · rename_i hji
      rw [if_neg hji] at hcol
      exact h.live j hj hcol
  · intro j hj hcol
    rw [setServer_eq] at hcol ⊢
    by_cases hji : j = i
    · rw [if_pos hji, ho] at hcol
      cases hcol
    · rw [if_neg hji] at hcol ⊢
      exact h.dead j hj hcol

theorem Lifetimes.registry (h : w.Lifetimes) (reg : Registry) :
    ({ w with registry := reg } : Runtime).Lifetimes := ⟨h.live, h.dead, h.timers, h.firing⟩

theorem Lifetimes.newServer (h : w.Lifetimes) {o : LuaServer} (ho : o.collected = false)
    (hc : o.c.Intact 0) :
    ({ w.setServer w.serverCount o with serverCount := w.serverCount + 1 } : Runtime).Lifetimes := by
  refine ⟨?_, ?_, h.timers, h.firing⟩
  · intro j hj hcol
    have hj' : j < w.serverCount + 1 := hj
    change ((w.setServer w.serverCount o).servers j).collected = false at hcol
    show ((w.setServer w.serverCount o).servers j).c.Intact 0
    rw [setServer_eq] at hcol ⊢
    split
    · exact hc
    · rename_i hji
      rw [if_neg hji] at hcol
      exact h.live j (by omega) hcol
  · intro j hj hcol
    have hj' : j < w.serverCount + 1 := hj
    change ((w.setServer w.serverCount o).servers j).collected = true at hcol
    show ((w.setServer w.serverCount o).servers j).c.Intact 1 ∧ _
    by_cases hji : j = w.serverCount
    · rw [setServer_eq, if_pos hji, ho] at hcol
      cases hcol
    · rw [setServer_eq, if_neg hji] at hcol
      have hd := h.dead j (by omega) hcol
      have heq : (w.setServer w.serverCount o).servers j = w.servers j := by
        rw [setServer_eq, if_neg hji]
      simp only [heq]
      exact hd

theorem Lifetimes.newTimer (h : w.Lifetimes) {o : LuvTimer} (ho : TimerRight o) :
    ({ w with timerCount := w.timerCount + 1 }.setTimer w.timerCount o).Lifetimes := by
  refine ⟨h.live, h.dead, ?_, ?_⟩
  · intro t ht
    have ht' : t < w.timerCount + 1 := ht
    rw [setTimer_eq]
    split
    · exact ho
    · exact h.timers t (by omega)
  · intro t ht
    obtain ⟨hlt, hraw⟩ := h.firing t ht
    refine ⟨Nat.lt_succ_of_lt hlt, ?_⟩
    rw [setTimer_eq, if_neg (by omega)]
    exact hraw

/-- Starting a server frees nothing. -/
theorem start_intact {c : Server} (hc : c.Intact 0) (r : StartResult) :
    (c.qsfNetServerStart r).2.Intact 0 :=
  Server.intact_step (e := .quiet (.start r)) hc trivial

/-- **The collector frees a server once**, whose handles are closed before. -/
theorem Lifetimes.gc (h : w.Lifetimes) {i : ℕ} (hi : w.Usable i)
    (hacc : (w.servers i).c.acceptor.phase = .closed)
    (htim : (w.servers i).c.timer.phase = .closed) : (w.serverGc i).Lifetimes := by
  have hc := h.live i hi.1 hi.2
  have hd := Server.intact_destroy hc
  have hh := Server.destroy_handles hc.toOK
  have hlook : ∀ j, (w.serverGc i).servers j =
      if j = i then { w.servers i with c := (w.servers i).c.qsfNetServerDestroy, collected := true }
      else w.servers j := fun j => setServer_eq i j _
  refine ⟨?_, ?_, h.timers, h.firing⟩
  · intro j hj hcol
    rw [hlook] at hcol ⊢
    by_cases hji : j = i
    · rw [if_pos hji] at hcol
      cases hcol
    · rw [if_neg hji] at hcol ⊢
      exact h.live j hj hcol
  · intro j hj hcol
    rw [hlook] at hcol ⊢
    by_cases hji : j = i
    · rw [if_pos hji]
      exact ⟨hd, hh.1.2 hacc, hh.2.2 htim⟩
    · rw [if_neg hji] at hcol ⊢
      exact h.dead j hj hcol

/-- **A turn of the loop** frees the sessions and timers whose handles it closes. -/
theorem Lifetimes.turn (h : w.Lifetimes) (hf : w.firing = none) : w.loopTurn.Lifetimes := by
  have hturn : ∀ {f : ℕ} {c : Server}, c.Intact f → c.loopTurn.Intact f :=
    fun hc => Server.intact_step (e := .quiet .turn) hc trivial
  have hclosed : ∀ {u : UvHandle}, u.phase = .closed → (uvTurn u).phase = .closed := by
    intro u hu
    unfold uvTurn
    rw [if_neg (by rw [hu]; decide)]
    exact hu
  refine ⟨fun i hi hcol => hturn (h.live i hi hcol), ?_, ?_, ?_⟩
  · intro i hi hcol
    obtain ⟨hc, ha, htm⟩ := h.dead i hi hcol
    exact ⟨hturn hc, hclosed ha, hclosed htm⟩
  · intro t ht
    have hr := h.timers t ht
    show TimerRight (timerTurn (w.timers t))
    unfold timerTurn
    split
    · rename_i hp
      have hfreed := hr.freed
      rw [hp] at hfreed
      refine ⟨?_, ?_⟩
      · simp [uvTurn, hp, hfreed]
      · intro hraw
        simp [uvTurn, hp] at hraw
    · exact hr
  · intro t ht
    change w.firing = some t at ht
    rw [hf] at ht
    cases ht

theorem Lifetimes.createTimer (h : w.Lifetimes) {args : List LuaValue} {rInit rStart : ℤ}
    (hfree : FreesClosed toInteger w (.createTimer args rInit rStart)) :
    (luvNewTimer toInteger w args rInit rStart).1.Lifetimes := by
  have hnew : TimerRight { LuvTimer.zero with handle := uvInit } := ⟨rfl, fun h => by cases h⟩
  rcases luvNewTimer_cases toInteger w args rInit rStart with
    ⟨-, hc⟩ | ⟨-, -, hc⟩ | ⟨hi, hargs, hs, -⟩ | ⟨-, -, -, m, hc⟩
  · -- freed before it was a handle
    rw [hc]
    exact h.newTimer ⟨rfl, fun _ => rfl⟩
  · rw [hc]
    exact h.newTimer hnew
  · exact absurd (hfree hi hargs) (not_le.2 hs)
  · rw [hc]
    refine (h.registry (luaLRef w.registry (luaTop args)).2).newTimer ?_
    exact ⟨rfl, fun hraw => by simp [uvStart, uvInit] at hraw⟩

/-- A timer that expires is a handle, and stays in its phase. -/
theorem Lifetimes.fire (h : w.Lifetimes) {t : ℕ} (ht : t < w.timerCount)
    (hact : (w.timers t).handle.active = true) :
    (w.fireTimer t).Lifetimes := by
  have hr := h.timers t ht
  have hraw : (w.timers t).handle.phase ≠ .raw := by
    intro hraw
    rw [hr.raw hraw] at hact
    cases hact
  have hphase : ∀ u : UvHandle, (if (w.timers t).repeatMs = 0 then uvStop u else u).phase = u.phase := by
    intro u
    split <;> rfl
  have hlook : ∀ k, (w.fireTimer t).timers k = if k = t then _ else w.timers k :=
    fun k => setTimer_eq t k _
  refine ⟨h.live, h.dead, ?_, ?_⟩
  · intro k hk
    rw [hlook]
    split
    · refine ⟨?_, ?_⟩
      · simp only [hphase]
        exact hr.freed
      · intro hraw'
        simp only [hphase] at hraw'
        exact absurd hraw' hraw
    · exact h.timers k hk
  · intro k hk
    obtain rfl : t = k := Option.some.inj hk
    refine ⟨ht, ?_⟩
    rw [hlook, if_pos rfl]
    simp only [hphase]
    exact hraw

/-- A timer that ends is closed, and freed later by its close callback. -/
theorem Lifetimes.done (h : w.Lifetimes) {t : ℕ} (hf : w.firing = some t) :
    (w.doneTimer t).Lifetimes := by
  obtain ⟨ht, hraw⟩ := h.firing t hf
  have hr := h.timers t ht
  unfold doneTimer
  simp only
  split
  · exact ⟨h.live, h.dead, h.timers, fun k hk => by cases hk⟩
  · refine ⟨h.live, h.dead, ?_, fun k hk => by cases hk⟩
    intro k hk
    show TimerRight (({ w with firing := none } : Runtime).setTimer t _ |>.timers k)
    rw [setTimer_eq]
    split
    · have hraw' : (uvCloseOnce (w.timers t).handle).phase ≠ .raw := by
        unfold uvCloseOnce
        split
        · exact hraw
        · simp [uvClose]
      refine ⟨?_, fun h => absurd h hraw'⟩
      have hfreed := hr.freed
      simp only [hraw, or_false] at hfreed
      simp only [hraw', or_false, uvCloseOnce_closed]
      exact hfreed
    · exact h.timers k hk

/-- **One event that frees closed objects only.** -/
theorem lifetimes_step {e : RuntimeEvent} (h : w.Lifetimes) (he : w.enabled e)
    (hfree : FreesClosed toInteger w e) : (step toInteger w e).Lifetimes := by
  cases e with
  | createServer args =>
    rcases createServer_cases toInteger w args with hc | ⟨m, b, c, hc⟩
    · simp only [step, hc]; exact h
    · simp only [step, hc]
      exact h.newServer rfl (Server.intact_create m b c)
  | start args r =>
    rcases serverStart_cases toInteger w args r with
      ⟨-, hc⟩ | ⟨i, hi, ⟨-, hc⟩ | ⟨-, hc⟩⟩
    · simp only [step, hc]; exact h
    · simp only [step, hc]; exact h.registry _
    · simp only [step, hc]
      have hu := he i hi
      exact (h.registry _).setServer hu.2 (start_intact (h.live i hu.1 hu.2) r)
  | net i e =>
    obtain ⟨hu, hen, -⟩ := he
    have hen' : (w.servers i).c.enabled { e with cb := w.onServerRead i e.cb } := hen
    exact h.setServer hu.2 (Server.intact_step (h.live i hu.1 hu.2) hen')
  | gc i => exact h.gc he hfree.1 hfree.2
  | createTimer args rInit rStart => exact h.createTimer hfree
  | fire t => exact h.fire he.1 he.2.1
  | done t => exact h.done he
  | turn => exact h.turn he

/-- **An event that frees an object with an open handle.** -/
theorem lifetimes_break {e : RuntimeEvent} (h : w.Lifetimes) (he : w.enabled e)
    (hfree : ¬ FreesClosed toInteger w e) : ¬ (step toInteger w e).FreedClosed := by
  intro hc
  cases e with
  | gc i =>
    have hu : w.Usable i := he
    have hin := h.live i hu.1 hu.2
    have hh := Server.destroy_handles hin.toOK
    have hlook : ((w.serverGc i).servers i).c = (w.servers i).c.qsfNetServerDestroy := by
      show ((w.setServer i _).servers i).c = _
      rw [setServer_eq, if_pos rfl]
    have hs := hc.servers i hu.1
    simp only [step] at hs
    rw [hlook] at hs
    have hfreed := (Server.intact_destroy hin).freed
    have hclosed := hs.2 (by omega)
    exact hfree ⟨hh.1.1 hclosed.1, hh.2.1 hclosed.2⟩
  | createTimer args rInit rStart =>
    simp only [FreesClosed, not_forall, not_le] at hfree
    obtain ⟨hi, hargs, hs⟩ := hfree
    rcases luvNewTimer_cases toInteger w args rInit rStart with
      ⟨hi', -⟩ | ⟨-, hargs', -⟩ | ⟨-, -, -, heq⟩ | ⟨-, -, hs', -⟩
    · omega
    · exact hargs' hargs
    · have ht := hc.timers w.timerCount
      simp only [step, heq] at ht
      rw [setTimer_eq, if_pos rfl] at ht
      have hphase := (ht (Nat.lt_succ_self _)).2 Nat.one_pos
      simp [uvInit] at hphase
    · omega
  | createServer | start | net | fire | done | turn => exact hfree trivial

theorem lifetimes_init : Runtime.init.Lifetimes where
  live i hi := absurd hi (Nat.not_lt_zero i)
  dead i hi := absurd hi (Nat.not_lt_zero i)
  timers t ht := absurd ht (Nat.not_lt_zero t)
  firing t ht := by cases ht

/-- **Lifetimes are respected exactly in the runs where every event frees closed objects.** -/
theorem freed_closed_iff {w₀ : Runtime} {es : List RuntimeEvent} (h₀ : (luaRuntime toInteger).init w₀)
    (hr : (luaRuntime toInteger).Runs w₀ es) :
    (luaRuntime toInteger).Along FreedClosed w₀ es ↔
      (luaRuntime toInteger).Meets (FreesClosed toInteger) w₀ es := by
  obtain rfl : w₀ = Runtime.init := h₀
  exact Machine.along_iff_meets (I := Lifetimes) (fun _ _ h he hc => lifetimes_step h he hc)
    (fun _ _ h he hc => lifetimes_break h he hc) (fun _ h => h.freedClosed) lifetimes_init hr

/-- A server that is stopped, and collected a turn of the loop later. -/
theorem freed_closed_iff_late : (luaRuntime fun _ => none).Along FreedClosed Runtime.init
    [.createServer [], .net 0 (.quiet (.op .stop)), .turn, .gc 0] := by
  have hr : (luaRuntime fun _ => none).Runs Runtime.init
      [.createServer [], .net 0 (.quiet (.op .stop)), .turn, .gc 0] := by
    refine ⟨trivial, ⟨⟨Nat.one_pos, rfl⟩, trivial, ?_, ?_, ?_⟩, rfl, ⟨Nat.one_pos, rfl⟩, trivial⟩
    · intro h
      cases h
    · intro r h
      cases h
    · intro h
      cases h
  exact (freed_closed_iff rfl hr).2 ⟨trivial, trivial, trivial, ⟨rfl, rfl⟩, trivial⟩

/-- **A server that is collected while its handles are open** is freed with handles that
are still closing. -/
theorem collected_open :
    (luaRuntime fun _ => none).Runs Runtime.init [.createServer [], .gc 0] ∧
      (let w := (luaRuntime fun _ => none).exec Runtime.init [.createServer [], .gc 0]
       (w.servers 0).c.freed = 1 ∧ (w.servers 0).c.acceptor.phase = .closing ∧
        (w.servers 0).c.timer.phase = .closing) ∧
      ¬ (luaRuntime fun _ => none).Along FreedClosed Runtime.init [.createServer [], .gc 0] := by
  refine ⟨⟨trivial, ⟨Nat.one_pos, rfl⟩, trivial⟩, ⟨rfl, rfl, rfl⟩, ?_⟩
  intro h
  have hclosed := ((h.last.servers 0 Nat.one_pos).2 Nat.one_pos).1
  revert hclosed
  decide

end Runtime

end Qsf
