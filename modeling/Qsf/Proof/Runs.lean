import Qsf.Proof.Handlers

/-!
# What holds in every run of a server

`inv_reachable`: whatever the callbacks do, in every reachable state the pointers of
the map are sound, only sessions in the map are reading, and there are at most
`max_connection` of them. `Kept` is the rule for further properties of every run, input by
input (`Kept.step`, `Kept.run`). `core_stable` is the frame of callbacks and removals, and
`hashIter_fuel` says that the sweep of the map ends.
-/

set_option autoImplicit false

namespace Qsf

/-- Only the receiver of the session differs. -/
def Session.SameButReceiver (σ σ' : Session) : Prop :=
  σ'.serial = σ.serial ∧ σ'.handle = σ.handle ∧ σ'.freed = σ.freed ∧ σ'.out = σ.out ∧
    σ'.shut = σ.shut

theorem Session.fill_same (σ : Session) (now : UInt64) (nread : ℤ) :
    σ.SameButReceiver (σ.fill now nread).1 := by
  unfold Session.fill Session.takeHeader
  simp only
  split
  · split
    · split <;> exact ⟨rfl, rfl, rfl, rfl, rfl⟩
    · exact ⟨rfl, rfl, rfl, rfl, rfl⟩
  · split <;> exact ⟨rfl, rfl, rfl, rfl, rfl⟩

namespace Server

variable {s s' : Server} {a b : ℕ} {cb : Callback}

@[simp] theorem uvCloseOnce_active (h : UvHandle) : (uvCloseOnce (uvStop h)).active = false := by
  unfold uvCloseOnce
  split <;> rfl

/-- The invariant of every run. -/
structure Inv (s : Server) : Prop extends OK s where
  active : ∀ a, (s.sess a).handle.active = true → a ∈ s.members
  count : s.hashCount ≤ s.maxConnection.toNat

theorem Inv.of_eq (hs : s.Inv) (hm : s'.sessionMap = s.sessionMap) (hse : s'.sess = s.sess)
    (ha : s'.allocated = s.allocated) (hc : s'.maxConnection = s.maxConnection) : s'.Inv :=
  ⟨hs.toOK.of_eq hm ha, by rw [hse, members, hm]; exact hs.active,
    by rw [hashCount, hm, hc]; exact hs.count⟩

theorem Inv.outside (hs : s.Inv) (h : Outside s s') : s'.Inv :=
  hs.of_eq (by rw [h]) (by rw [h]) (by rw [h]) (by rw [h])

theorem Inv.drop (hs : s.Inv) (hok : (s.drop a).OK)
    (hm : ∀ b, b ≠ a → (b ∈ (s.drop a).members ↔ b ∈ s.members))
    (hc : (s.drop a).hashCount ≤ s.hashCount) : (s.drop a).Inv := by
  refine ⟨hok, ?_, hc.trans hs.count⟩
  intro b hb
  rw [drop_sess] at hb
  split at hb
  · simp at hb
  · rename_i hne; exact (hm b hne).2 (hs.active b hb)

/-- No call of the API, no report and no removal breaks the invariant. -/
theorem inv_stable : Stable (fun _ _ => True) Inv where
  ok _ h := h.toOK
  move s s' hm hs := by
    cases hm with
    | quiet hq =>
      refine ⟨(Move.quiet hq).ok hs.toOK, ?_, ?_⟩
      · intro a ha
        rw [hq.members]; exact hs.active a ((hq.sess a).2 ha)
      · rw [hq.rest]; exact hs.count
    | @drop a ha =>
      apply hs.drop ((Move.drop ha).ok hs.toOK) (fun b hb => by simp [mem_drop ha, hb])
      show (s.drop a).members.length ≤ s.members.length
      rw [drop_members ha]
      exact List.length_erase_le
    | stopping => exact hs.of_eq rfl rfl rfl rfl
    | closing => exact hs.of_eq rfl rfl rfl rfl
  report s who r _ hs := hs.of_eq rfl rfl rfl rfl
  again s a ha hs := by
    have hdel : (s.drop a).sessionMap = { s.sessionMap with fault := true } := by
      rw [drop_sessionMap, IMap.del_of_not_mem ha]
    have hmem : (s.drop a).members = s.members := by unfold members; rw [hdel]
    refine hs.drop ⟨?_, ?_, ?_⟩ (fun b _ => by rw [hmem]) (le_of_eq ?_)
    · rw [hdel]; exact hs.forward
    · rw [hmem]; exact hs.bound
    · rw [hdel]; exact hs.left_bound
    · exact congrArg List.length hmem

/-- The map has no new members after a removal. -/
theorem drop_members_sublist (s : Server) (a : ℕ) : (s.drop a).members.Sublist s.members := by
  by_cases ha : a ∈ s.members
  · rw [drop_members ha]
    exact List.erase_sublist
  · rw [members, drop_sessionMap, IMap.del_of_not_mem ha]

/-- **How to be stable**, for a property of states with the invariant: it survives that
sessions are touched, that a session is removed, what a stop does to the server, and
reports. -/
theorem Stable.of_inv {R : Option ℕ → Report → Prop} {I : Server → Prop} (inv : ∀ s, I s → s.Inv)
    (quiet : ∀ s s', Quiet s s' → s'.Inv → I s → I s')
    (drop : ∀ s a, (s.drop a).Inv → I s → I (s.drop a))
    (stop : ∀ s s' : Server, s' = { s with stopped := s'.stopped, timer := s'.timer, acceptor := s'.acceptor } →
      s'.Inv → I s → I s')
    (report : ∀ s who r, R who r → (s.log (.report who r)).Inv → I s → I (s.log (.report who r))) :
    Stable R I where
  ok s h := (inv s h).toOK
  move s s' hm h := by
    have hi := inv_stable.move s s' hm (inv s h)
    cases hm with
    | quiet hq => exact quiet s s' hq hi h
    | drop ha => exact drop s _ hi h
    | stopping => exact stop s _ rfl hi h
    | closing => exact stop s _ rfl hi h
  report s who r hr h := report s who r hr (inv_stable.report s who r trivial (inv s h)) h
  again s a ha h := drop s a (inv_stable.again s a ha (inv s h)) h

theorem Inv.setSess {σ : Session} (hs : s.Inv) (h : σ.handle.active = true → a ∈ s.members) :
    (s.setSess a σ).Inv := by
  refine ⟨⟨hs.forward, hs.bound, hs.left_bound⟩, ?_, hs.count⟩
  intro b hb
  rw [setSess_eq] at hb
  split at hb
  · rename_i he; rw [he]; exact h hb
  · exact hs.active b hb

theorem Inv.refused {now : UInt64} (hs : s.Inv) : (s.refused now).Inv := by
  refine ⟨⟨hs.forward, fun b hb => (hs.bound b hb).trans (Nat.lt_succ_self _),
    fun a b h => (hs.left_bound a b h).trans (Nat.lt_succ_self _)⟩, ?_, hs.count⟩
  intro b hb
  by_cases he : b = s.allocated
  · subst he; simp [Server.refused] at hb
  · simp only [Server.refused, Function.update_of_ne he] at hb; exact hs.active b hb

theorem accepted_members (now : UInt64) (n : UInt32) (hs : s.OK) :
    (s.accepted now n).members = s.members ++ [s.allocated] :=
  IMap.add_items hs.not_mem_allocated

theorem Inv.accepted {now : UInt64} {n : UInt32} (hs : s.Inv)
    (hc : s.hashCount < s.maxConnection.toNat) : (s.accepted now n).Inv := by
  have hm := accepted_members now n hs.toOK
  refine ⟨⟨hs.forward.add hs.bound, ?_, ?_⟩, ?_, ?_⟩
  · intro b hb
    rw [hm, List.mem_append, List.mem_singleton] at hb
    show b < s.allocated + 1
    rcases hb with hb | hb
    · have := hs.bound b hb; omega
    · omega
  · intro a b h
    have h' : s.sessionMap.left a = some b := by rw [← h]; exact (congrFun IMap.add_left a).symm
    exact (hs.left_bound a b h').trans (Nat.lt_succ_self _)
  · intro b hb
    rw [hm, List.mem_append, List.mem_singleton]
    by_cases he : b = s.allocated
    · exact .inr he
    · simp only [Server.accepted, Function.update_of_ne he] at hb; exact .inl (hs.active b hb)
  · show (s.accepted now n).members.length ≤ s.maxConnection.toNat
    rw [hm, List.length_append, List.length_singleton]
    exact hc

theorem Inv.connection (hs : s.Inv) (err : ℤ) (now : UInt64) (acc peer rd : ℤ) :
    (s.onConnection cb err now acc peer rd).Inv := by
  rcases onConnection_cases cb hs.toOK err now acc peer rd with
    ⟨h, -⟩ | ⟨h, -⟩ | ⟨h, -⟩ | ⟨h, -⟩ | ⟨n, h, -, -, hc, -⟩
  · rw [h]; exact hs
  · rw [h]; exact inv_stable.move _ _ (.quiet quiet_abort) hs
  · rw [h]; exact inv_stable.callOnRead trivial hs
  · rw [h]; exact hs.refused
  · rw [h]; exact hs.accepted hc

theorem Inv.read (hs : s.Inv) (now : UInt64) (bytes : List UInt8)
    (ha : (s.sess a).handle.active = true) : (s.sessionRead cb a now (.data bytes)).Inv := by
  obtain ⟨t, ht, -, htm, hcases⟩ := sessionRead_cases s cb a now bytes
  have htI : t.Inv := by
    rcases ht with rfl | rfl
    · exact hs
    · exact inv_stable.move _ _ (.quiet quiet_abort) hs
  have hset : ∀ σ, (t.setSess a σ).Inv := fun σ => htI.setSess fun _ => htm ▸ hs.active a ha
  rcases hcases _ rfl with h | h | ⟨body, h⟩
  · rw [h]; exact htI
  · rw [h]; exact hset _
  · rw [h]; exact inv_stable.callOnRead trivial (hset _)

theorem uvTurn_active (h : UvHandle) : (uvTurn h).active = h.active := by
  unfold uvTurn; split <;> rfl

theorem turn_handle (σ : Session) : σ.turn.handle = uvTurn σ.handle := by
  unfold Session.turn
  split
  · rfl
  · rename_i h; simp [uvTurn, h]

theorem inv_step (e : Event) (hs : s.Inv) (he : s.enabled e) : (s.step e).Inv := by
  obtain ⟨input, cb⟩ := e
  cases input with
  | start r => exact hs.outside (outside_start r)
  | connection err now acc peer rd => exact (hs.outside (outside_pending err)).connection err now acc peer rd
  | read a now r =>
    cases r with
    | data bytes => exact hs.read now bytes he.1
    | error code => exact inv_stable.readError he.2 trivial hs
  | tick now => exact inv_stable.sweep (fun _ _ => trivial) (hs.outside outside_timer)
  | op o => exact inv_stable.moves (call_moves hs.toOK o) hs
  | turn =>
    refine ⟨hs.toOK.of_eq rfl rfl, ?_, hs.count⟩
    intro a ha
    apply hs.active a
    rw [← uvTurn_active, ← turn_handle]
    exact ha

theorem inv_create (m : UInt32) (h c : UInt16) : (qsfCreateNetServer m h c).Inv :=
  ⟨⟨IMap.Forward.empty, by simp [members, qsfCreateNetServer, IMap.empty],
    by simp [qsfCreateNetServer, IMap.empty]⟩,
    by simp [qsfCreateNetServer, Session.zero, UvHandle.zero],
    by simp [qsfCreateNetServer, hashCount, IMap.count, IMap.empty]⟩

/-- **The invariant holds in every run**, for any callbacks. -/
theorem inv_reachable (h : netServer.Reachable s) : s.Inv :=
  Machine.Reachable.invariant (I := Inv) (by rintro _ ⟨m, h, c, rfl⟩; exact inv_create m h c)
    (fun _ e hs he => inv_step e hs he) h

/-! ## Properties of every run -/

/-- A property that no input of the loop breaks: no callback and no removal, nothing that a
read does to its receiver, no connection, no turn of the loop, and no change of the listener
or the timer. -/
structure Kept (I : Server → Prop) : Prop extends Stable (fun _ _ => True) I where
  inv : ∀ s, I s → s.Inv
  outside : ∀ s s' : Server, s' = { s with
    onRead := s'.onRead
    acceptor := s'.acceptor
    pending := s'.pending
    timer := s'.timer
    timerRepeat := s'.timerRepeat } → I s → I s'
  receive : ∀ s a now (bytes : List UInt8), a ∈ s.members → I s →
    I (s.setSess a (((s.sess a).copied bytes).fill now bytes.length).1)
  refused : ∀ s now, I s → I (s.refused now)
  accepted : ∀ s now n, s.hashCount < s.maxConnection.toNat → n ≠ 0 → s.FirstFree n → I s →
    I (s.accepted now n)
  turn : ∀ s, I s → I s.loopTurn

variable {I : Server → Prop}

theorem Kept.read (h : Kept I) (hs : I s) (now : UInt64) (bytes : List UInt8)
    (hact : (s.sess a).handle.active = true) : I (s.sessionRead cb a now (.data bytes)) := by
  obtain ⟨t, ht, htsess, htm, hcases⟩ := sessionRead_cases s cb a now bytes
  have htI : I t := by
    rcases ht with rfl | rfl
    · exact hs
    · exact h.move _ _ (.quiet quiet_abort) hs
  have hmem : a ∈ t.members := htm ▸ (h.inv _ hs).active a hact
  have hset := h.receive t a now bytes hmem htI
  rw [htsess] at hset
  rcases hcases _ rfl with he | he | ⟨body, he⟩
  · rw [he]; exact htI
  · rw [he]; exact hset
  · rw [he]; exact h.callOnRead trivial hset

theorem Kept.connection (h : Kept I) (hs : I s) (err : ℤ) (now : UInt64) (acc peer rd : ℤ) :
    I (s.onConnection cb err now acc peer rd) := by
  rcases onConnection_cases cb (h.ok s hs) err now acc peer rd with
    ⟨he, -⟩ | ⟨he, -⟩ | ⟨he, -⟩ | ⟨he, -⟩ | ⟨n, he, hn, -, hc, -, hfree⟩
  · rw [he]; exact hs
  · rw [he]; exact h.move _ _ (.quiet quiet_abort) hs
  · rw [he]; exact h.callOnRead trivial hs
  · rw [he]; exact h.refused s now hs
  · rw [he]; exact h.accepted s now n hc hn hfree hs

/-- **One event.** -/
theorem Kept.step (h : Kept I) (hs : I s) (e : Event) (he : s.enabled e) : I (s.step e) := by
  obtain ⟨input, cb⟩ := e
  cases input with
  | start r => exact h.outside s _ (outside_start r) hs
  | connection err now acc peer rd =>
    exact h.connection (h.outside s _ (outside_pending err) hs) err now acc peer rd
  | read a now r =>
    cases r with
    | data bytes => exact h.read hs now bytes he.1
    | error code => exact h.toStable.readError he.2 trivial hs
  | tick now => exact h.toStable.sweep (fun _ _ => trivial) (h.outside s _ outside_timer hs)
  | op o => exact h.toStable.moves (call_moves (h.ok s hs) o) hs
  | turn => exact h.turn s hs

/-- **A run.** -/
theorem Kept.run (h : Kept I) (hs : I s) {es : List Event} (hr : netServer.Runs s es) :
    I (netServer.exec s es) :=
  Machine.Meets.invariant (M := netServer) (I := I) (fun _ e hs he => h.step hs e he) hs hr

theorem Kept.reachable (h : Kept I) (hcreate : ∀ m b c, I (qsfCreateNetServer m b c))
    (hr : netServer.Reachable s) : I s :=
  Machine.Reachable.invariant (I := I) (by rintro _ ⟨m, b, c, rfl⟩; exact hcreate m b c)
    (fun _ e hs he => h.step hs e he) hr

/-! ## What callbacks leave alone -/

/-- The fields that no API call, no report and no removal changes. -/
def core (s : Server) : Server :=
  { s with
    stopped := false
    acceptor := .zero
    timer := .zero
    sessionMap := .empty
    sess := fun _ => Session.zero
    aborted := false
    trace := [] }

/-- **Frame.** Callbacks and removals leave the core alone. -/
theorem core_stable (c : Server) : Stable (fun _ _ => True) (fun s => s.Inv ∧ s.core = c) where
  ok _ h := h.1.toOK
  move s s' hm h := by
    refine ⟨inv_stable.move s s' hm h.1, ?_⟩
    rw [← h.2]
    cases hm with
    | quiet hq => rw [hq.rest]; rfl
    | drop => rfl
    | stopping => rfl
    | closing => rfl
  report s who r _ h := ⟨inv_stable.report s who r trivial h.1, h.2⟩
  again s a ha h := ⟨inv_stable.again s a ha h.1, h.2⟩

/-- **The sweep ends.** Any number of rounds from `allocated` on is as good. -/
theorem hashIter_fuel (hs : s.Inv) (now : UInt64) {n : ℕ} (hn : s.allocated ≤ n) :
    walk hhNext (sweepBody cb now) n s s.sessionMap.items.head?
      (s.sessionMap.items.head?.bind s.hhNext) = s.hearbeatTimerCb cb now := by
  have hstable := core_stable s.core
  have hbody : ∀ (t : Server) (a : ℕ), t.Inv ∧ t.core = s.core →
      (sweepBody cb now t a).Inv ∧ (sweepBody cb now t a).core = s.core := by
    intro t a ht
    unfold sweepBody
    split
    · exact hstable.reportDrop trivial ht
    · exact ht
  have hnext : ∀ (t : Server) (a b : ℕ), t.Inv ∧ t.core = s.core → t.hhNext a = some b → a < b ∧ b < s.allocated := by
    intro t a b ht hab
    have hcore : t.core.allocated = s.core.allocated := by rw [ht.2]
    have halloc : t.allocated = s.allocated := hcore
    rw [← halloc]
    exact ht.1.toOK.next_lt hab
  cases hhead : s.sessionMap.items.head? with
  | none => simp only [hearbeatTimerCb, hashIter, hhead, walk_none]
  | some a =>
    have ha : a < s.allocated := hs.bound a (List.mem_of_mem_head? hhead)
    simp only [hearbeatTimerCb, hashIter, hhead]
    exact walk_fuel (fun t => t.Inv ∧ t.core = s.core) hbody hnext n s.allocated s a _ ⟨hs, rfl⟩
      (fun b hb => hs.toOK.next_lt hb) (by omega) (by omega) ha

end Server

end Qsf
