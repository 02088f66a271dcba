import Qsf.Proof.Runs
import Qsf.Spec.LuaRuntime

/-!
# What one call of the Lua side does

The outcomes of `createServer`, `server:start` and `createTimer`, written out once
(`createServer_cases`, `serverStart_cases`, `luvNewTimer_cases`), and what an event leaves
alone in a C server (`Server.Intact`): the server object is not freed, and its sessions are
freed by their close callbacks only.
-/

set_option autoImplicit false

namespace Qsf

/-! ## Sessions and their close callback -/

/-- The session was freed as often as its close callback ran. -/
def Session.FreedRight (σ : Session) : Prop :=
  σ.freed = if σ.handle.phase = .closed then 1 else 0

theorem uvCloseOnce_closed {h : UvHandle} : (uvCloseOnce h).phase = .closed ↔ h.phase = .closed := by
  unfold uvCloseOnce
  split
  · rfl
  · rename_i hc
    simp only [uvIsClosing, Bool.or_eq_true, decide_eq_true_eq, not_or] at hc
    simp [uvClose, hc.2]

theorem Session.FreedRight.of_same {σ σ' : Session} (h : σ.FreedRight) (hf : σ'.freed = σ.freed)
    (hp : σ'.handle.phase = .closed ↔ σ.handle.phase = .closed) : σ'.FreedRight := by
  unfold Session.FreedRight at h ⊢
  rw [hf, h]
  simp only [hp]

theorem Session.FreedRight.turn {σ : Session} (h : σ.FreedRight) : σ.turn.FreedRight := by
  unfold Session.turn
  split
  · rename_i hc
    unfold Session.FreedRight at h ⊢
    rw [hc] at h
    simp [uvTurn, hc, h]
  · exact h

namespace Server

variable {s s' : Server} {a : ℕ} {f : ℕ}

/-- The server object was freed `f` times, its sessions by their close callbacks. -/
structure Intact (f : ℕ) (s : Server) : Prop extends Inv s where
  sessions : ∀ a, (s.sess a).FreedRight
  freed : s.freed = f

theorem Intact.of_eq (hs : s.Intact f) (hi : s'.Inv) (hse : s'.sess = s.sess)
    (hf : s'.freed = s.freed) : s'.Intact f :=
  ⟨hi, by rw [hse]; exact hs.sessions, hf.trans hs.freed⟩

theorem intact_stable (f : ℕ) : Stable (fun _ _ => True) (Intact f) := by
  apply Stable.of_inv
  case inv => exact fun s hs => hs.toInv
  case quiet =>
    intro s s' hq hi hs
    refine ⟨hi, ?_, by rw [hq.rest]; exact hs.freed⟩
    intro a
    obtain ⟨⟨_, _, _, he⟩, -⟩ := hq.sess a
    rw [he]
    exact (hs.sessions a).of_same rfl Iff.rfl
  case drop =>
    intro s a hi hs
    refine ⟨hi, ?_, hs.freed⟩
    intro b
    rw [drop_sess]
    split
    · exact (hs.sessions a).of_same rfl (by rw [uvCloseOnce_closed]; rfl)
    · exact hs.sessions b
  case stop => exact fun s s' he hi hs => hs.of_eq hi (by rw [he]) (by rw [he])
  case report => exact fun s who r _ hi hs => hs.of_eq hi rfl rfl

theorem Intact.created (hs : s.Intact f) (hi : s'.Inv) (hf : s'.freed = s.freed)
    (hne : ∀ b, b ≠ s.allocated → s'.sess b = s.sess b)
    (hnew : (s'.sess s.allocated).FreedRight) : s'.Intact f := by
  refine ⟨hi, ?_, hf.trans hs.freed⟩
  intro b
  by_cases hb : b = s.allocated
  · rw [hb]; exact hnew
  · rw [hne b hb]; exact hs.sessions b

/-- **No event frees the server object**, nor a session but through its close callback. -/
theorem intact_kept (f : ℕ) : Kept (Intact f) where
  toStable := intact_stable f
  inv _ hs := hs.toInv
  outside s s' he hs := hs.of_eq (hs.toInv.outside he) (by rw [he]) (by rw [he])
  receive s a now bytes ha hs := by
    have hsame := Session.fill_same ((s.sess a).copied bytes) now bytes.length
    refine ⟨hs.toInv.setSess fun _ => ha, ?_, hs.freed⟩
    intro b
    rw [setSess_eq]
    split
    · refine (hs.sessions a).of_same hsame.2.2.1 ?_
      rw [hsame.2.1]
      rfl
    · exact hs.sessions b
  refused s now hs := by
    apply hs.created hs.toInv.refused rfl (fun b hb => Function.update_of_ne hb _ _)
    simp only [Server.refused, Function.update_self]
    rfl
  accepted s now n hc _ _ hs := by
    apply hs.created (hs.toInv.accepted hc) rfl (fun b hb => Function.update_of_ne hb _ _)
    simp only [Server.accepted, Function.update_self]
    rfl
  turn s hs := ⟨inv_step (.quiet .turn) hs.toInv trivial, fun a => (hs.sessions a).turn, hs.freed⟩

theorem intact_step (hs : s.Intact f) {e : Event} (he : s.enabled e) : (s.step e).Intact f :=
  (intact_kept f).step hs e he

theorem intact_create (m : UInt32) (h c : UInt16) : (qsfCreateNetServer m h c).Intact 0 :=
  ⟨inv_create m h c, fun _ => rfl, rfl⟩

/-- `qsf_net_server_destroy` frees the server once more. -/
theorem intact_destroy (hs : s.Intact f) : s.qsfNetServerDestroy.Intact (f + 1) := by
  have h := (intact_stable f).moves (stop_moves hs.toOK) hs
  exact ⟨h.toInv.of_eq rfl rfl rfl rfl, h.sessions, congrArg (· + 1) hs.freed⟩

/-- `qsf_net_server_start` fails when a libuv call in it does. -/
theorem start_failed (r : StartResult) : (s.qsfNetServerStart r).1 < 0 ↔ r.Failed := by
  unfold qsfNetServerStart StartResult.Failed
  simp only
  split_ifs with h1 h2 h3 h4 <;> simp_all

/-- `qsf_net_server_destroy` closes the two handles, if they were not closed already. -/
theorem destroy_handles (hs : s.OK) :
    (s.qsfNetServerDestroy.acceptor.phase = .closed ↔ s.acceptor.phase = .closed) ∧
      (s.qsfNetServerDestroy.timer.phase = .closed ↔ s.timer.phase = .closed) := by
  have hfold : ∀ (l : List ℕ) (t : Server),
      (l.foldl drop t).acceptor = t.acceptor ∧ (l.foldl drop t).timer = t.timer := by
    intro l
    induction l with
    | nil => exact fun _ => ⟨rfl, rfl⟩
    | cons a l ih => exact fun t => ih (t.drop a)
  have hstop := hfold s.members { s with stopped := true }
  unfold qsfNetServerDestroy
  rw [stop_eq hs.length_le]
  simp only [hstop.1, hstop.2, uvCloseOnce_closed]
  exact ⟨trivial, Iff.rfl⟩

end Server

/-! ## Outcomes of the calls -/

namespace Runtime

variable {toInteger : LuaValue → Option ℤ} {w : Runtime} {args : List LuaValue}

theorem setServer_eq (i j : ℕ) (o : LuaServer) :
    (w.setServer i o).servers j = if j = i then o else w.servers j := Function.update_apply ..

theorem setTimer_eq (t k : ℕ) (o : LuvTimer) :
    (w.setTimer t o).timers k = if k = t then o else w.timers k := Function.update_apply ..

/-- The arguments of `server:start` that pass its checks. -/
def StartArgs (toInteger : LuaValue → Option ℤ) (args : List LuaValue) : Prop :=
  luaIsstring (luaArg args 2) = true ∧ toInteger (luaArg args 3) ≠ none ∧
    luaIsfunction (luaArg args 4) = true

/-- The arguments of `createTimer` that pass its checks. -/
def TimerArgs (toInteger : LuaValue → Option ℤ) (args : List LuaValue) : Prop :=
  toInteger (luaArg args 1) ≠ none ∧ toInteger (luaArg args 2) ≠ none ∧
    luaIsfunction (luaArg args 3) = true

theorem createServer_cases (toInteger : LuaValue → Option ℤ) (w : Runtime) (args : List LuaValue) :
    (createServer toInteger w args).1 = w ∨ ∃ m h c, (createServer toInteger w args).1 =
      { w.setServer w.serverCount ⟨Server.qsfCreateNetServer m h c, LUA_NOREF, false, none⟩ with
        serverCount := w.serverCount + 1 } := by
  unfold createServer
  simp only
  split
  · exact .inl rfl
  · exact .inr ⟨_, _, _, rfl⟩

/-- **The outcomes of `server:start`.** The old reference is released before the checks. -/
theorem serverStart_cases (toInteger : LuaValue → Option ℤ) (w : Runtime) (args : List LuaValue)
    (r : StartResult) :
    (checkServer args = none ∧ (serverStart toInteger w args r).1 = w) ∨
    ∃ i, checkServer args = some i ∧
      ((¬ StartArgs toInteger args ∧ (serverStart toInteger w args r).1 =
          { w with registry := luaLUnref w.registry (w.servers i).readRef }) ∨
       (StartArgs toInteger args ∧ (serverStart toInteger w args r).1 =
          { w with registry := (luaLRef (luaLUnref w.registry (w.servers i).readRef) (luaTop args)).2
            }.setServer i
            { w.servers i with
              c := ((w.servers i).c.qsfNetServerStart r).2
              readRef := (luaLRef (luaLUnref w.registry (w.servers i).readRef) (luaTop args)).1
              given := if ((w.servers i).c.qsfNetServerStart r).1 < 0 then (w.servers i).given
                else some (luaArg args 4) })) := by
  unfold serverStart
  cases hcheck : checkServer args with
  | none => exact .inl ⟨rfl, rfl⟩
  | some i =>
    refine .inr ⟨i, rfl, ?_⟩
    simp only
    by_cases h2 : luaIsstring (luaArg args 2) = false
    · rw [if_pos h2]
      exact .inl ⟨fun h => Bool.false_ne_true (h2.symm.trans h.1), rfl⟩
    rw [if_neg h2]
    by_cases h3 : toInteger (luaArg args 3) = none
    · rw [if_pos h3]
      exact .inl ⟨fun h => h.2.1 h3, rfl⟩
    rw [if_neg h3]
    by_cases h4 : luaIsfunction (luaArg args 4) = false
    · rw [if_pos h4]
      exact .inl ⟨fun h => Bool.false_ne_true (h4.symm.trans h.2.2), rfl⟩
    rw [if_neg h4]
    exact .inr ⟨⟨by simpa using h2, h3, by simpa using h4⟩, rfl⟩

/-- **The outcomes of `createTimer`.** -/
theorem luvNewTimer_cases (toInteger : LuaValue → Option ℤ) (w : Runtime) (args : List LuaValue)
    (rInit rStart : ℤ) :
    (rInit < 0 ∧ (luvNewTimer toInteger w args rInit rStart).1 =
      { w with timerCount := w.timerCount + 1 }.setTimer w.timerCount
        { LuvTimer.zero with freed := 1 }) ∨
    (0 ≤ rInit ∧ ¬ TimerArgs toInteger args ∧ (luvNewTimer toInteger w args rInit rStart).1 =
      { w with timerCount := w.timerCount + 1 }.setTimer w.timerCount
        { LuvTimer.zero with handle := uvInit }) ∨
    (0 ≤ rInit ∧ TimerArgs toInteger args ∧ rStart < 0 ∧
      (luvNewTimer toInteger w args rInit rStart).1 =
      { w with
        timerCount := w.timerCount + 1
        registry := luaLUnref (luaLRef w.registry (luaTop args)).2 (luaLRef w.registry (luaTop args)).1
        }.setTimer w.timerCount
        { LuvTimer.zero with
          handle := uvInit
          ref := (luaLRef w.registry (luaTop args)).1
          data := true
          given := some (luaArg args 3)
          freed := 1 }) ∨
    (0 ≤ rInit ∧ TimerArgs toInteger args ∧ 0 ≤ rStart ∧ ∃ repeatMs,
      (luvNewTimer toInteger w args rInit rStart).1 =
      { w with
        timerCount := w.timerCount + 1
        registry := (luaLRef w.registry (luaTop args)).2 }.setTimer w.timerCount
        { LuvTimer.zero with
          handle := uvStart uvInit
          repeatMs := repeatMs
          ref := (luaLRef w.registry (luaTop args)).1
          data := true
          given := some (luaArg args 3) }) := by
  unfold luvNewTimer
  simp only
  by_cases hi : rInit < 0
  · rw [if_pos hi]
    exact .inl ⟨hi, rfl⟩
  rw [if_neg hi]
  have hi' : 0 ≤ rInit := not_lt.1 hi
  cases h1 : toInteger (luaArg args 1) with
  | none => exact .inr (.inl ⟨hi', fun h => h.1 h1, rfl⟩)
  | some timeout =>
    cases h2 : toInteger (luaArg args 2) with
    | none => exact .inr (.inl ⟨hi', fun h => h.2.1 h2, rfl⟩)
    | some repeatMs =>
      simp only
      by_cases h3 : luaIsfunction (luaArg args 3) = false
      · rw [if_pos h3]
        exact .inr (.inl ⟨hi', fun h => Bool.false_ne_true (h3.symm.trans h.2.2), rfl⟩)
      rw [if_neg h3]
      have hargs : TimerArgs toInteger args :=
        ⟨by rw [h1]; simp, by rw [h2]; simp, by simpa using h3⟩
      by_cases hs : rStart < 0
      · rw [if_pos hs]
        exact .inr (.inr (.inl ⟨hi', hargs, hs, rfl⟩))
      · rw [if_neg hs]
        exact .inr (.inr (.inr ⟨hi', hargs, not_lt.1 hs, _, rfl⟩))

end Runtime

end Qsf
