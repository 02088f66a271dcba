import Qsf.Proof.Serial

/-!
# What the handlers of the loop do

* `onConnection_cases`: the five outcomes of `on_connection`, the accepted and the
  refused session written out (`Server.accepted`, `Server.refused`).
* `Stable`: a property kept by the moves of API calls, by reports and by removals.
  Such a property survives every callback, whatever it calls (`Stable.callOnRead`),
  the error path of a read (`Stable.readError`) and the sweep (`Stable.sweep`).
* `Server.Inv`, with `inv_step`: in every run the pointers of the map are sound, only
  sessions in the map are reading, and there are at most `max_connection` of them.
-/

set_option autoImplicit false

namespace Qsf

open Relation

/-- The session after libuv copied the bytes of a read behind those already there. -/
def Session.copied (σ : Session) (bytes : List UInt8) : Session :=
  { σ with recvBuf := storeAt σ.recvBuf σ.recvBytes.toNat bytes }

namespace Server

variable {s s' : Server} {a b : ℕ} {cb : Callback}

/-! ## `on_connection` -/

/-- A session as `session_create` makes it. -/
def newSession (now : UInt64) : Session :=
  { Session.zero with
    handle := uvInit
    lastRecvTime := now
    bufSize := DEFAULT_RECV_BUF_SIZE
    recvBuf := qsfMalloc DEFAULT_RECV_BUF_SIZE.toNat }

/-- After `on_connection` took a connection and destroyed its session again. -/
def refused (s : Server) (now : UInt64) : Server :=
  { s with
    pending := false
    allocated := s.allocated + 1
    sess := Function.update s.sess s.allocated
      { newSession now with handle := uvCloseOnce (uvStop uvInit) }
    trace := s.trace ++ [.destroy s.allocated] }

/-- After `on_connection` took a connection as session `allocated`, with serial `n`. -/
def accepted (s : Server) (now : UInt64) (n : UInt32) : Server :=
  { s with
    pending := false
    allocated := s.allocated + 1
    nextSerial := n + 1
    sess := Function.update s.sess s.allocated
      { newSession now with serial := n, handle := uvStart uvInit }
    sessionMap := s.sessionMap.add s.allocated
    trace := s.trace ++ [.accept s.allocated n] }

theorem OK.not_mem_allocated (hs : s.OK) : s.allocated ∉ s.members :=
  fun h => absurd (hs.bound _ h) (lt_irrefl _)

theorem hashFindInt_congr (hm : s'.sessionMap = s.sessionMap)
    (h : ∀ a ∈ s.members, (s'.sess a).serial = (s.sess a).serial) (n : UInt32) :
    s'.hashFindInt n = s.hashFindInt n := by
  unfold Server.hashFindInt
  rw [hm]
  exact List.find?_congr fun a ha => by rw [h a ha]

/-- **The outcomes of `on_connection`.** -/
theorem onConnection_cases (cb : Callback) (hs : s.OK) (err : ℤ) (now : UInt64) (acc peer rd : ℤ) :
    (s.onConnection cb err now acc peer rd = s ∧ (err ≠ 0 ∨ s.stopped = true)) ∨
    (s.onConnection cb err now acc peer rd = s.abort ∧ s.onRead = false) ∨
    (s.onConnection cb err now acc peer rd = s.callOnRead cb none limitReport ∧
      s.maxConnection.toNat ≤ s.hashCount ∧ s.stopped = false) ∨
    (s.onConnection cb err now acc peer rd = s.refused now ∧ (acc < 0 ∨ peer < 0 ∨ rd < 0) ∧
      s.hashCount < s.maxConnection.toNat ∧ s.stopped = false) ∨
    (∃ n, s.onConnection cb err now acc peer rd = s.accepted now n ∧ n ≠ 0 ∧
      s.hashFindInt n = none ∧ s.hashCount < s.maxConnection.toNat ∧ s.stopped = false ∧
      s.FirstFree n) := by
  unfold onConnection
  by_cases herr : err ≠ 0
  · rw [if_pos herr]; exact .inl ⟨rfl, .inl herr⟩
  rw [if_neg herr]
  by_cases hon : s.onRead = true
  swap
  · rw [if_pos hon]; exact .inr (.inl ⟨rfl, by simpa using hon⟩)
  rw [if_neg (by simpa using hon)]
  by_cases hst : s.stopped = true
  · rw [if_pos hst]; exact .inl ⟨rfl, .inr hst⟩
  rw [if_neg hst]
  have hst' : s.stopped = false := by simpa using hst
  by_cases hc : s.maxConnection.toNat ≤ s.hashCount
  · rw [if_pos hc]; exact .inr (.inr (.inl ⟨rfl, hc, hst'⟩))
  rw [if_neg hc]
  have hc' : s.hashCount < s.maxConnection.toNat := not_le.1 hc
  -- the three failures of the setup end alike
  have hfail : ({ s.sessionCreate now with pending := false } : Server).sessionDestroy s.allocated =
      s.refused now := by
    simp [sessionCreate, sessionDestroy, setSess, log, refused, newSession]
  simp only
  by_cases ha : acc < 0
  · rw [if_pos ha, hfail]; exact .inr (.inr (.inr (.inl ⟨rfl, .inl ha, hc', hst'⟩)))
  rw [if_neg ha]
  by_cases hp : peer < 0
  · rw [if_pos hp, hfail]; exact .inr (.inr (.inr (.inl ⟨rfl, .inr (.inl hp), hc', hst'⟩)))
  rw [if_neg hp]
  by_cases hr : rd < 0
  · rw [if_pos hr, hfail]; exact .inr (.inr (.inr (.inl ⟨rfl, .inr (.inr hr), hc', hst'⟩)))
  rw [if_neg hr]
  -- the search for a serial ends: fewer than `max_connection` sessions are in the map
  set t := ({ s.sessionCreate now with pending := false } : Server)
  set t' := t.setSess s.allocated { t.sess s.allocated with handle := uvStart (t.sess s.allocated).handle }
  have hcount : t'.hashCount < 4294967295 := by
    have := s.maxConnection.toNat_lt
    show s.hashCount < _
    omega
  obtain ⟨u, hu⟩ := setSessionSerial_isSome hcount s.allocated
  obtain ⟨n, hn0, hfree, rfl⟩ := setSessionSerial_spec hu
  have hcongr : ∀ m, t'.hashFindInt m = s.hashFindInt m := by
    intro m
    have hmap : t'.sessionMap = s.sessionMap := rfl
    refine hashFindInt_congr hmap ?_ m
    intro b hb
    have hne : b ≠ s.allocated := fun e => hs.not_mem_allocated (e ▸ hb)
    simp only [t', t, sessionCreate, setSess, Function.update_of_ne hne]
  have hfree' : s.FirstFree n := by
    obtain ⟨hnone, k, hk, htaken⟩ := hfree
    refine ⟨hcongr n ▸ hnone, k, hk, ?_⟩
    intro j hj
    rw [← hcongr]
    exact htaken j hj
  refine .inr (.inr (.inr (.inr ⟨n, ?_, hn0, hfree'.1, hc', hst', hfree'⟩)))
  rw [hu]
  simp [t', t, sessionCreate, setSess, hashAddInt, log, accepted, newSession]

/-! ## Properties that survive callbacks -/

/-- A property of servers with sound pointers that no API call, no report allowed by
`R` and no removal (even of a session that is not in the map) breaks. -/
structure Stable (R : Option ℕ → Report → Prop) (I : Server → Prop) : Prop where
  ok : ∀ s, I s → s.OK
  move : ∀ s s', Move s s' → I s → I s'
  report : ∀ s who r, R who r → I s → I (s.log (.report who r))
  again : ∀ s a, a ∉ s.members → I s → I (s.drop a)

variable {R : Option ℕ → Report → Prop} {I : Server → Prop}

theorem Stable.moves (h : Stable R I) (hm : ReflTransGen Move s s') (hs : I s) : I s' :=
  moves_invariant h.move hm hs

theorem Stable.callOnRead (h : Stable R I) {who : Option ℕ} {r : Report} (hr : R who r) (hs : I s) :
    I (s.callOnRead cb who r) :=
  h.moves (callOnRead_moves (h.ok s hs) cb who r) (h.report s who r hr hs)

theorem Stable.drop (h : Stable R I) (hs : I s) (a : ℕ) : I (s.drop a) := by
  by_cases ha : a ∈ s.members
  · exact h.move _ _ (.drop ha) hs
  · exact h.again s a ha hs

/-- The error path of `on_session_read`, and one expired session of the sweep. -/
theorem Stable.reportDrop (h : Stable R I) {who : Option ℕ} {r : Report} (hr : R who r) (hs : I s) :
    I ((s.callOnRead cb who r).drop a) :=
  h.drop (h.callOnRead hr hs) a

theorem Stable.sweep (h : Stable R I) (hr : ∀ a n, R (some a) (timeoutReport n)) {now : UInt64}
    (hs : I s) : I (s.hearbeatTimerCb cb now) := by
  refine walk_invariant ?_ _ _ _ _ hs
  intro s a hs
  unfold sweepBody
  split
  · exact h.reportDrop (hr a _) hs
  · exact hs

theorem onSessionRead_error {now : UInt64} {nread : ℤ} (h : nread < 0) :
    s.onSessionRead cb a now nread =
      (s.callOnRead cb (some a) (errorReport nread (s.sess a).serial)).drop a := by
  unfold onSessionRead
  rw [if_pos h.le, if_pos h]
  rfl

theorem onSessionAlloc_fst (s : Server) (a : ℕ) :
    (s.onSessionAlloc a).1 = s ∨ (s.onSessionAlloc a).1 = s.abort := by
  unfold onSessionAlloc
  simp only
  split
  · split
    · exact .inr rfl
    · exact .inl rfl
  · exact .inl rfl

/-- A read that reports an error copies nothing. -/
theorem sessionRead_error {now : UInt64} {code : ℤ} (h : code < 0) :
    s.sessionRead cb a now (.error code) =
      ((s.onSessionAlloc a).1.callOnRead cb (some a) (errorReport code (s.sess a).serial)).drop a := by
  have hsess : ((s.onSessionAlloc a).1).sess = s.sess := by
    rcases onSessionAlloc_fst s a with h | h
    · rw [h]
    · rw [h]; rfl
  have hcopy : storeAt ((s.onSessionAlloc a).1.sess a).recvBuf (s.onSessionAlloc a).2.1
      (ReadResult.error code).bytes = ((s.onSessionAlloc a).1.sess a).recvBuf := by
    simp [storeAt, ReadResult.bytes, List.take_append_drop]
  unfold sessionRead
  simp only [hcopy]
  rw [show (s.onSessionAlloc a).1.setSess a ((s.onSessionAlloc a).1.sess a) = (s.onSessionAlloc a).1 by
    simp [setSess]]
  rw [← hsess]
  exact onSessionRead_error h

/-- The state in which `on_session_alloc` leaves the server, for what survives moves. -/
theorem Stable.alloc (h : Stable R I) (hs : I s) : I (s.onSessionAlloc a).1 := by
  rcases onSessionAlloc_fst s a with he | he
  · rw [he]; exact hs
  · rw [he]; exact h.move _ _ (.quiet quiet_abort) hs

theorem Stable.readError (h : Stable R I) {now : UInt64} {code : ℤ} (hc : code < 0)
    (hr : R (some a) (errorReport code (s.sess a).serial)) (hs : I s) :
    I (s.sessionRead cb a now (.error code)) := by
  rw [sessionRead_error hc]
  exact h.reportDrop hr (h.alloc hs)

/-- **A read that brings bytes** changes the receiver of the session, and reports the
body when it became complete. A read of nothing changes nothing. -/
theorem sessionRead_data (s : Server) (cb : Callback) (a : ℕ) (now : UInt64) (bytes : List UInt8) :
    ∃ t : Server, (t = s ∨ t = s.abort) ∧ s.sessionRead cb a now (.data bytes) =
      if bytes = [] then t
      else
        match ((s.sess a).copied bytes).fill now bytes.length with
        | (σ, none) => t.setSess a σ
        | (σ, some body) => (t.setSess a σ).callOnRead cb (some a) (dataReport σ.serial body) := by
  refine ⟨(s.onSessionAlloc a).1, onSessionAlloc_fst s a, ?_⟩
  have hsess : ((s.onSessionAlloc a).1).sess = s.sess := by
    rcases onSessionAlloc_fst s a with h | h
    · rw [h]
    · rw [h]; rfl
  have hbase : (s.onSessionAlloc a).2.1 = (s.sess a).recvBytes.toNat := by
    unfold onSessionAlloc
    simp only
    split
    · split <;> rfl
    · rfl
  unfold sessionRead
  simp only [hsess, hbase, ReadResult.bytes, ReadResult.nread]
  set t := (s.onSessionAlloc a).1
  unfold onSessionRead
  by_cases hb : bytes = []
  · subst hb
    simp only [List.length_nil, Nat.cast_zero, le_refl, if_true, lt_irrefl, if_false, storeAt,
      List.map_nil, List.append_nil, Nat.add_zero, List.take_append_drop]
    simp [setSess, ← hsess]
  · have hpos : 0 < bytes.length := List.length_pos_iff.2 hb
    rw [if_neg (by omega), if_neg hb]
    simp only [setSess_self, Session.copied]
    split
    · simp_all [setSess]
    · simp_all [setSess]

/-- **The outcomes of such a read**: nothing, a new receiver, or a new receiver and the
report of a body. -/
theorem sessionRead_cases (s : Server) (cb : Callback) (a : ℕ) (now : UInt64) (bytes : List UInt8) :
    ∃ t : Server, (t = s ∨ t = s.abort) ∧ t.sess = s.sess ∧ t.members = s.members ∧
      ∀ σ, σ = (((s.sess a).copied bytes).fill now bytes.length).1 →
        s.sessionRead cb a now (.data bytes) = t ∨
        s.sessionRead cb a now (.data bytes) = t.setSess a σ ∨
        ∃ body, s.sessionRead cb a now (.data bytes) =
          (t.setSess a σ).callOnRead cb (some a) (dataReport σ.serial body) := by
  obtain ⟨t, ht, he⟩ := sessionRead_data s cb a now bytes
  refine ⟨t, ht, ?_, ?_, ?_⟩
  · rcases ht with rfl | rfl <;> rfl
  · rcases ht with rfl | rfl <;> rfl
  · rintro σ rfl
    rw [he]
    by_cases hb : bytes = []
    · exact .inl (if_pos hb)
    · rw [if_neg hb]
      rcases ((s.sess a).copied bytes).fill now bytes.length with ⟨σ, _ | body⟩
      · exact .inr (.inl rfl)
      · exact .inr (.inr ⟨body, rfl⟩)

/-! ## Changes outside the sessions -/

/-- Only the listener and the timer changed, and whether `on_read` is set. -/
def Outside (s s' : Server) : Prop :=
  s' = { s with
    onRead := s'.onRead
    acceptor := s'.acceptor
    pending := s'.pending
    timer := s'.timer
    timerRepeat := s'.timerRepeat }

theorem outside_start (r : StartResult) : Outside s (s.qsfNetServerStart r).2 := by
  unfold Outside qsfNetServerStart
  simp only
  split_ifs <;> rfl

/-- A connection is reported. -/
theorem outside_pending (err : ℤ) :
    Outside s (if err = 0 then { s with pending := true } else s) := by
  unfold Outside
  split <;> rfl

/-- A timer that does not repeat is stopped before it is handled. -/
theorem outside_timer :
    Outside s (if s.timerRepeat = 0 then { s with timer := uvStop s.timer } else s) := by
  unfold Outside
  split <;> rfl

end Server

end Qsf
