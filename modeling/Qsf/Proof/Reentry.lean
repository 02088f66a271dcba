import Qsf.Proof.Runs

/-!
# Callbacks that call back into the server

The read-error path and the sweep call `on_read` first and delete the session afterwards,
and the sweep also keeps a saved next pointer across the call.

* `Tidy`: `HASH_DEL` was only applied to members, each session was removed and destroyed
  at most once, and the map holds the sessions accepted and not removed.
* `Spared`: the calls of a terminal callback do not remove the session it is about, and
  those of the sweep do not remove an expired session right behind it.
* `survives_reentry`: the map survives every run of spared events. A callback that kicks
  the session being reported breaks it (`kick_in_error_callback`).
-/

set_option autoImplicit false

namespace Qsf

/-- The events counted by `HASH_COUNT`. -/
def TraceEvent.isAccept : TraceEvent → Bool
  | .accept _ _ => true
  | _ => false

def TraceEvent.isRemove : TraceEvent → Bool
  | .remove _ => true
  | _ => false

namespace Server

variable {s s' : Server} {a x : ℕ} {cb : Callback}

/-- **The session map survived**: no `HASH_DEL` of a session outside the map, no session
removed or destroyed twice, and `HASH_COUNT` right. -/
structure Survived (s : Server) : Prop where
  fault : s.sessionMap.fault = false
  removed : ∀ a, s.trace.count (.remove a) ≤ 1
  destroyed : ∀ a, s.trace.count (.destroy a) ≤ 1
  balance : s.hashCount + s.trace.countP TraceEvent.isRemove = s.trace.countP TraceEvent.isAccept

/-! ## Conditions on the calls of a callback -/

/-- The calls of the server API, one after the other. -/
def api : Machine Server Op where
  init _ := True
  enabled _ _ := True
  step := call

/-- The call leaves session `x` in the map. -/
def OpKeeps (x : ℕ) (s : Server) : Op → Prop
  | .stop => False
  | .close n => s.hashFindInt n ≠ some x
  | _ => True

/-- The call does not remove the session right behind `x`, if that one has expired. -/
def OpKeepsNext (now : UInt64) (x : ℕ) (s : Server) : Op → Prop
  | .close n => ∀ y, s.hashFindInt n = some y → s.hhNext x = some y → s.expired now y = false
  | _ => True

/-- What the calls made while a read error of `x` is reported leave in place. -/
def ErrorSpares (cb : Callback) (s : Server) (x : ℕ) (r : Report) : Prop :=
  api.Meets (OpKeeps x) (s.log (.report (some x) r)) (cb r (s.log (.report (some x) r)))

/-- What the calls made while the sweep reports `x` leave in place. -/
def SweepSpares (cb : Callback) (now : UInt64) (s : Server) (x : ℕ) : Prop :=
  s.expired now x = true →
    let t := s.log (.report (some x) (timeoutReport (s.sess x).serial))
    api.Meets (fun t o => OpKeeps x t o ∧ OpKeepsNext now x t o) t
      (cb (timeoutReport (s.sess x).serial) t)

/-- No callback of the event removes the session that its handler deletes afterwards, or
goes on with. -/
def Spared (s : Server) (e : Event) : Prop :=
  match e.input with
  | .read a _ (.error code) =>
    ErrorSpares e.cb (s.onSessionAlloc a).1 a (errorReport code (s.sess a).serial)
  | .tick now =>
    let s := if s.timerRepeat = 0 then { s with timer := uvStop s.timer } else s
    walkMeets hhNext (sweepBody e.cb now) (SweepSpares e.cb now) s.allocated s
      s.sessionMap.items.head? (s.sessionMap.items.head?.bind s.hhNext)
  | _ => True

/-! ## Tidy states -/

/-- The invariant behind `Survived`: sessions in the map, and sessions not created yet,
were never removed nor destroyed. -/
structure Tidy (s : Server) : Prop extends Inv s, Survived s where
  clean : ∀ a, a ∈ s.members ∨ s.allocated ≤ a →
    s.trace.count (.remove a) = 0 ∧ s.trace.count (.destroy a) = 0

theorem Tidy.of_eq (hs : s.Tidy) (hi : s'.Inv) (hm : s'.sessionMap = s.sessionMap)
    (ha : s'.allocated = s.allocated) (ht : s'.trace = s.trace) : s'.Tidy where
  toInv := hi
  fault := by rw [hm]; exact hs.fault
  removed := by rw [ht]; exact hs.removed
  destroyed := by rw [ht]; exact hs.destroyed
  balance := by rw [ht, hashCount, hm]; exact hs.balance
  clean := by rw [ht, members, hm, ha]; exact hs.clean

theorem Tidy.outside (hs : s.Tidy) (h : Outside s s') : s'.Tidy :=
  hs.of_eq (hs.toInv.outside h) (by rw [h]) (by rw [h]) (by rw [h])

theorem Tidy.log_report (hs : s.Tidy) (who : Option ℕ) (r : Report) :
    (s.log (.report who r)).Tidy where
  toInv := inv_stable.report s who r trivial hs.toInv
  fault := hs.fault
  removed a := by simpa [log, List.count_singleton] using hs.removed a
  destroyed a := by simpa [log, List.count_singleton] using hs.destroyed a
  balance := by
    have := hs.balance
    simpa [log, hashCount, TraceEvent.isAccept, TraceEvent.isRemove] using this
  clean a h := by simpa [log, List.count_singleton] using hs.clean a h

/-- **Removing a member** keeps a tidy state tidy. -/
theorem Tidy.drop (hs : s.Tidy) (ha : a ∈ s.members) : (s.drop a).Tidy := by
  have hclean := hs.clean a (.inl ha)
  have hpos : 0 < s.members.length := List.length_pos_of_mem ha
  have hlen : (s.drop a).hashCount = s.hashCount - 1 := by
    show (s.drop a).members.length = s.members.length - 1
    rw [drop_members ha, List.length_erase_of_mem ha]
  refine ⟨inv_stable.move _ _ (.drop ha) hs.toInv, ⟨?_, ?_, ?_, ?_⟩, ?_⟩
  · rw [drop_sessionMap, IMap.del_fault ha]
    exact hs.fault
  · intro b
    rw [drop_trace, List.count_append]
    by_cases hb : b = a
    · subst hb
      simp [hclean.1]
    · simpa [Ne.symm hb] using hs.removed b
  · intro b
    rw [drop_trace, List.count_append]
    by_cases hb : b = a
    · subst hb
      simp [hclean.2]
    · simpa [List.count_cons, Ne.symm hb] using hs.destroyed b
  · have hcount := hs.balance
    rw [drop_trace, List.countP_append, List.countP_append, hlen]
    simp only [List.countP_cons, List.countP_nil, TraceEvent.isAccept, TraceEvent.isRemove,
      if_true, Bool.false_eq_true, if_false]
    change 0 < s.hashCount at hpos
    omega
  · intro b hb
    have hne : b ≠ a := by
      rintro rfl
      rcases hb with hb | hb
      · exact ((mem_drop ha).1 hb).1 rfl
      · exact absurd (hs.bound b ha) (not_lt.2 hb)
    have hb' : b ∈ s.members ∨ s.allocated ≤ b := hb.imp (fun h => ((mem_drop ha).1 h).2) id
    simpa [List.count_append, List.count_cons, Ne.symm hne] using hs.clean b hb'

theorem Tidy.move (hs : s.Tidy) (hm : Move s s') : s'.Tidy := by
  have hi := inv_stable.move s s' hm hs.toInv
  cases hm with
  | quiet hq => exact hs.of_eq hi (by rw [hq.rest]) (by rw [hq.rest]) (by rw [hq.rest])
  | drop ha => exact hs.drop ha
  | stopping => exact hs.of_eq hi rfl rfl rfl
  | closing => exact hs.of_eq hi rfl rfl rfl

/-- A callback after which nothing is deleted may call anything. -/
theorem Tidy.callOnRead (hs : s.Tidy) (who : Option ℕ) (r : Report) :
    (s.callOnRead cb who r).Tidy :=
  moves_invariant (fun _ _ hm h => h.move hm) (callOnRead_moves hs.toOK cb who r)
    (hs.log_report who r)

/-! ## Calls that keep a session -/

theorem expired_congr {now : UInt64} (hm : s'.maxHeartBeat = s.maxHeartBeat)
    (ha : (s'.sess a).lastRecvTime = (s.sess a).lastRecvTime) :
    s'.expired now a = s.expired now a := by
  unfold expired
  rw [hm, ha]

theorem Quiet.expired (h : Quiet s s') (now : UInt64) : s'.expired now a = s.expired now a := by
  exact expired_congr (by rw [h.rest]) (h.sess a).lastRecvTime

theorem expired_drop {now : UInt64} (b : ℕ) : (s.drop b).expired now a = s.expired now a := by
  obtain ⟨h, hb⟩ := exists_drop_sess s b a
  exact expired_congr rfl (by rw [hb])

/-- The outcomes of a call that keeps `x`: a quiet one, or the removal of another member. -/
theorem call_cases {o : Op} (hs : s.OK) (ho : OpKeeps x s o) :
    Quiet s (s.call o) ∨
      ∃ n z, o = .close n ∧ s.hashFindInt n = some z ∧ z ∈ s.members ∧ z ≠ x ∧ s.call o = s.drop z := by
  cases o with
  | stop => exact ho.elim
  | close n =>
    cases hfind : s.hashFindInt n with
    | none =>
      left
      have hcall : s.call (.close n) = s := by
        show s.qsfNetServerClose n = s
        rw [close_eq, hfind]
      rw [hcall]
      exact Quiet.refl s
    | some z =>
      right
      refine ⟨n, z, rfl, hfind, (mem_of_hashFindInt hfind).1, ?_, ?_⟩
      · rintro rfl
        exact ho hfind
      · show s.qsfNetServerClose n = s.drop z
        rw [close_eq, hfind]
  | write => exact .inl (quiet_call hs trivial)
  | writeAll => exact .inl (quiet_call hs trivial)
  | shutdown => exact .inl (quiet_call hs trivial)
  | size => exact .inl (quiet_call hs trivial)

theorem call_keeps {o : Op} (hs : s.Tidy) (hx : x ∈ s.members) (ho : OpKeeps x s o) :
    (s.call o).Tidy ∧ x ∈ (s.call o).members := by
  rcases call_cases hs.toOK ho with hq | ⟨n, z, -, -, hz, hzx, hcall⟩
  · refine ⟨hs.move (.quiet hq), ?_⟩
    rw [hq.members]
    exact hx
  · rw [hcall]
    exact ⟨hs.drop hz, (mem_drop hz).2 ⟨Ne.symm hzx, hx⟩⟩

/-- **The error path** of a session whose callback keeps it. -/
theorem Tidy.readError (hs : s.Tidy) (hx : x ∈ s.members) {now : UInt64} {code : ℤ}
    (hc : code < 0)
    (hsp : ErrorSpares cb (s.onSessionAlloc x).1 x (errorReport code (s.sess x).serial)) :
    (s.sessionRead cb x now (.error code)).Tidy := by
  have ht : (s.onSessionAlloc x).1.Tidy ∧ x ∈ (s.onSessionAlloc x).1.members := by
    rcases onSessionAlloc_fst s x with he | he
    · rw [he]; exact ⟨hs, hx⟩
    · rw [he]; exact ⟨hs.move (.quiet quiet_abort), hx⟩
  rw [sessionRead_error hc]
  have hafter := Machine.Meets.invariant (M := api) (I := fun t => t.Tidy ∧ x ∈ t.members)
    (fun t o h ho => call_keeps h.1 h.2 ho) ⟨ht.1.log_report _ _, ht.2⟩ hsp
  exact hafter.1.drop hafter.2

/-! ## The sweep -/

/-- The state inside the sweep, while session `x` is reported: `x` is a member, and the
saved pointer `tmp` leads to the session behind it over sessions that have not expired.
`ex` is what has expired, fixed for the whole sweep. -/
structure Reporting (ex : ℕ → Bool) (now : UInt64) (x : ℕ) (tmp : Option ℕ) (t : Server) : Prop where
  tidy : t.Tidy
  expired : ∀ b, t.expired now b = ex b
  mem : x ∈ t.members
  leads : t.sessionMap.LeadsTo (fun b => ex b = false) tmp (t.hhNext x)

theorem Reporting.call {ex : ℕ → Bool} {now : UInt64} {tmp : Option ℕ} {o : Op}
    (h : Reporting ex now x tmp s) (ho : OpKeeps x s o) (hn : OpKeepsNext now x s o) :
    Reporting ex now x tmp (s.call o) := by
  obtain ⟨htidy, hmem⟩ := call_keeps h.tidy h.mem ho
  rcases call_cases h.tidy.toOK ho with hq | ⟨n, z, rfl, hfind, hz, hzx, hcall⟩
  · have hmap : (s.call o).sessionMap = s.sessionMap := by rw [hq.rest]
    refine ⟨htidy, fun b => (hq.expired now).trans (h.expired b), hmem, ?_⟩
    rw [hhNext, hmap]
    exact h.leads
  · rw [hcall] at htidy hmem ⊢
    refine ⟨htidy, fun b => (expired_drop z).trans (h.expired b), hmem, ?_⟩
    apply h.leads.del_next h.mem hz (Ne.symm hzx)
    intro hnext
    rw [← h.expired z]
    exact hn z hfind hnext

/-- The invariant of the sweep: from `el` the pointers lead over sessions that have not
expired to a member or to the end, and `tmp` is the pointer of `el`. -/
structure Sweeping (ex : ℕ → Bool) (now : UInt64) (t : Server) (el tmp : Option ℕ) : Prop where
  tidy : t.Tidy
  expired : ∀ b, t.expired now b = ex b
  leads : ∃ q, t.sessionMap.LeadsTo (fun b => ex b = false) el q
  saved : tmp = el.bind t.hhNext

/-- **One round of the sweep.** A session that has expired is still a member when its turn
comes; one that has not may be gone, and is passed over. -/
theorem sweep_round {ex : ℕ → Bool} {now : UInt64} {tmp : Option ℕ}
    (h : Sweeping ex now s (some x) tmp) (hsp : SweepSpares cb now s x) :
    Sweeping ex now (s.sweepBody cb now x) tmp (tmp.bind (s.sweepBody cb now x).hhNext) := by
  obtain ⟨q, hq⟩ := h.leads
  have htmp : tmp = s.hhNext x := h.saved
  unfold sweepBody
  split
  · rename_i hex
    have hx : x ∈ s.members := hq.mem (by rw [← h.expired x, hex]; simp)
    have hnext : ∀ b, s.hhNext x = some b → b ∈ s.members := fun b hb => IMap.next_mem hx hb
    -- while `x` is reported
    have hstart : Reporting ex now x tmp (s.log (.report (some x) (timeoutReport (s.sess x).serial))) := by
      refine ⟨h.tidy.log_report _ _, h.expired, hx, ?_⟩
      rw [htmp]
      exact .here hnext
    have hend := Machine.Meets.invariant (M := api) (I := Reporting ex now x tmp)
      (fun t o ht ho => ht.call ho.1 ho.2) hstart (hsp hex)
    -- then `x` itself is deleted
    exact ⟨hend.tidy.drop hend.mem, fun b => (expired_drop x).trans (hend.expired b),
      ⟨_, hend.leads.del_self hend.mem⟩, rfl⟩
  · obtain ⟨q', hq'⟩ := hq.tail
    rw [htmp]
    exact ⟨h.tidy, h.expired, ⟨q', hq'⟩, rfl⟩

theorem Tidy.sweep (hs : s.Tidy) {now : UInt64}
    (hsp : walkMeets hhNext (sweepBody cb now) (SweepSpares cb now) s.allocated s
      s.sessionMap.items.head? (s.sessionMap.items.head?.bind s.hhNext)) :
    (s.hearbeatTimerCb cb now).Tidy := by
  have hhead : ∀ b, s.sessionMap.items.head? = some b → b ∈ s.sessionMap.items :=
    fun b hb => List.mem_of_mem_head? hb
  have hstart : Sweeping (s.expired now) now s s.sessionMap.items.head?
      (s.sessionMap.items.head?.bind s.hhNext) := ⟨hs, fun _ => rfl, ⟨_, .here hhead⟩, rfl⟩
  obtain ⟨_, _, h⟩ := walk_rule (J := Sweeping (s.expired now) now) (C := SweepSpares cb now)
    (fun t x tmp h hC => sweep_round h hC) s.allocated s _ _ hstart hsp
  exact h.tidy

/-! ## Runs -/

theorem Tidy.connection (hs : s.Tidy) (err : ℤ) (now : UInt64) (acc peer rd : ℤ) :
    (s.onConnection cb err now acc peer rd).Tidy := by
  have hi : (s.onConnection cb err now acc peer rd).Inv := hs.toInv.connection err now acc peer rd
  have hnew := hs.clean s.allocated (.inr (le_refl _))
  rcases onConnection_cases cb hs.toOK err now acc peer rd with
    ⟨h, -⟩ | ⟨h, -⟩ | ⟨h, -⟩ | ⟨h, -⟩ | ⟨n, h, -⟩
  · rw [h]; exact hs
  · rw [h] at hi ⊢; exact hs.of_eq hi rfl rfl rfl
  · rw [h]; exact hs.callOnRead _ _
  · rw [h] at hi ⊢
    refine ⟨hi, ⟨hs.fault, ?_, ?_, ?_⟩, ?_⟩
    · intro b
      simpa [refused, List.count_singleton] using hs.removed b
    · intro b
      by_cases hb : b = s.allocated
      · subst hb
        simp [refused, hnew.2]
      · simpa [refused, List.count_singleton, Ne.symm hb] using hs.destroyed b
    · have := hs.balance
      simpa [refused, hashCount, TraceEvent.isAccept, TraceEvent.isRemove] using this
    · intro b hb
      have hne : b ≠ s.allocated := by
        rintro rfl
        rcases hb with hb | hb
        · exact hs.not_mem_allocated hb
        · exact absurd hb (Nat.not_succ_le_self _)
      have hb' : b ∈ s.members ∨ s.allocated ≤ b := hb.imp id (fun h => (Nat.le_succ _).trans h)
      simpa [refused, List.count_singleton, Ne.symm hne] using hs.clean b hb'
  · have hm := accepted_members now n hs.toOK
    rw [h] at hi ⊢
    refine ⟨hi, ⟨?_, ?_, ?_, ?_⟩, ?_⟩
    · exact (IMap.add_fault hs.not_mem_allocated).trans hs.fault
    · intro b
      simpa [accepted, List.count_singleton] using hs.removed b
    · intro b
      simpa [accepted, List.count_singleton] using hs.destroyed b
    · have hcount := hs.balance
      have hlen : (s.accepted now n).hashCount = s.hashCount + 1 := by
        show (s.accepted now n).members.length = _
        rw [hm, List.length_append]
        rfl
      rw [hlen]
      simp only [accepted, List.countP_append, List.countP_singleton, TraceEvent.isAccept,
        TraceEvent.isRemove, Bool.false_eq_true, if_false, if_true]
      omega
    · intro b hb
      have hb' : b ∈ s.members ∨ s.allocated ≤ b := by
        rw [hm, List.mem_append, List.mem_singleton] at hb
        rcases hb with (hb | hb) | hb
        · exact .inl hb
        · exact .inr (le_of_eq hb.symm)
        · exact .inr ((Nat.le_succ _).trans hb)
      simpa [accepted, List.count_singleton] using hs.clean b hb'

theorem Tidy.read (hs : s.Tidy) (now : UInt64) (bytes : List UInt8)
    (hact : (s.sess a).handle.active = true) :
    (s.sessionRead cb a now (.data bytes)).Tidy := by
  obtain ⟨t, ht, -, htm, hcases⟩ := sessionRead_cases s cb a now bytes
  have htt : t.Tidy := by
    rcases ht with rfl | rfl
    · exact hs
    · exact hs.move (.quiet quiet_abort)
  have hmem : a ∈ t.members := htm ▸ hs.active a hact
  have hset : ∀ σ : Session, (t.setSess a σ).Tidy :=
    fun σ => htt.of_eq (htt.toInv.setSess fun _ => hmem) rfl rfl rfl
  rcases hcases _ rfl with he | he | ⟨body, he⟩
  · rw [he]; exact htt
  · rw [he]; exact hset _
  · rw [he]; exact (hset _).callOnRead _ _

/-- **One spared event** keeps a tidy server tidy. -/
theorem tidy_step (hs : s.Tidy) {e : Event} (he : s.enabled e) (hsp : Spared s e) :
    (s.step e).Tidy := by
  have hi := inv_step e hs.toInv he
  obtain ⟨input, cb⟩ := e
  cases input with
  | start r => exact hs.outside (outside_start r)
  | connection err now acc peer rd => exact (hs.outside (outside_pending err)).connection err now acc peer rd
  | read a now r =>
    cases r with
    | data bytes => exact hs.read now bytes he.1
    | error code => exact hs.readError (hs.active a he.1) he.2 hsp
  | tick now => exact (hs.outside outside_timer).sweep hsp
  | op o => exact moves_invariant (fun _ _ hm h => h.move hm) (call_moves hs.toOK o) hs
  | turn => exact hs.of_eq hi rfl rfl rfl

theorem tidy_create (m : UInt32) (h c : UInt16) : (qsfCreateNetServer m h c).Tidy where
  toInv := inv_create m h c
  fault := rfl
  removed _ := Nat.zero_le _
  destroyed _ := Nat.zero_le _
  balance := rfl
  clean _ _ := ⟨rfl, rfl⟩

/-- **The session map survives re-entrant callbacks** in every run whose events are spared. -/
theorem survives_reentry {s₀ : Server} {es : List Event} (h₀ : netServer.init s₀)
    (hr : netServer.Runs s₀ es) (hsp : netServer.Meets Spared s₀ es) :
    netServer.Along Survived s₀ es := by
  obtain ⟨m, h, c, rfl⟩ := h₀
  exact Machine.Meets.along (I := Tidy) (fun s e hs he => tidy_step hs he.1 he.2)
    (fun s hs => hs.toSurvived) (tidy_create m h c) (hr.and hsp)

/-- A callback that writes to everybody when a session ends. -/
theorem survives_reentry_write :
    netServer.Along Survived (qsfCreateNetServer 1 10 10)
      (accepting ++ [⟨.read 0 0 (.error (-4095)), fun _ _ => [.writeAll [7] 1 fun _ => 0]⟩]) := by
  refine survives_reentry ⟨1, 10, 10, rfl⟩ ⟨trivial, rfl, ⟨rfl, by decide⟩, trivial⟩ ?_
  exact ⟨trivial, trivial, ⟨trivial, trivial⟩, trivial⟩

/-- **Kicking the session whose read error is reported** makes the handler delete and
destroy it a second time. -/
theorem kick_in_error_callback :
    let es := accepting ++ [⟨.read 0 0 (.error (-4095)), fun r _ => [.close r.serial]⟩]
    let s := netServer.exec (qsfCreateNetServer 1 10 10) es
    netServer.Runs (qsfCreateNetServer 1 10 10) es ∧ s.sessionMap.fault = true ∧
      s.trace.count (.remove 0) = 2 ∧ s.trace.count (.destroy 0) = 2 ∧
      ¬ netServer.Along Survived (qsfCreateNetServer 1 10 10) es := by
  refine ⟨⟨trivial, rfl, ⟨rfl, by decide⟩, trivial⟩, rfl, rfl, rfl, ?_⟩
  intro h
  have hfault := h.last.fault
  revert hfault
  decide

end Server

end Qsf
