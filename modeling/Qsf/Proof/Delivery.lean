import Qsf.Proof.Framing

/-!
# What a session delivers in a run

`Framed β s`: every session received the bytes `β` and holds their unfinished frame,
and its data callbacks are the bodies of their complete frames. Nothing but a read
touches a receiver (`framed_stable`), a read appends its bytes to `β`
(`framed_read`), so a run appends all it read (`framed_run`), however it was cut and
whatever the callbacks do.
-/

set_option autoImplicit false

namespace Qsf

open Server

/-- The serial and the receiver are the same. -/
def Session.SameReceiver (σ σ' : Session) : Prop :=
  σ'.serial = σ.serial ∧ σ'.recvBuf = σ.recvBuf ∧ σ'.bufSize = σ.bufSize ∧
    σ'.recvBytes = σ.recvBytes ∧ σ'.bodySize = σ.bodySize

theorem Session.Receives.of_same {σ σ' : Session} {t : List UInt8} (h : σ.Receives t)
    (hs : σ.SameReceiver σ') : σ'.Receives t := by
  obtain ⟨-, h1, h2, h3, h4⟩ := hs
  exact ⟨by rw [h1, h2]; exact h.buf_len, by rw [h2]; exact h.buf_min, by rw [h2]; exact h.buf_max,
    by rw [h2, h4]; exact h.body_le, by rw [h1, h3, h4]; exact h.state⟩

theorem Server.Touch.sameReceiver {σ σ' : Session} (h : Touch σ σ') : σ.SameReceiver σ' := by
  obtain ⟨⟨_, _, _, rfl⟩, -⟩ := h
  exact ⟨rfl, rfl, rfl, rfl, rfl⟩

/-! ## Data callbacks in the trace -/

section Trace

variable {a : ℕ} {tr : List TraceEvent}

theorem dataReports_append (us : List TraceEvent) :
    dataReports a (tr ++ us) = dataReports a tr ++ dataReports a us := List.filterMap_append

theorem dataReports_report {who : Option ℕ} {r : Report} (h : r.err ≠ 0) :
    dataReports a [.report who r] = [] := by
  cases who <;> simp [dataReports, h]

theorem dataReports_data {b : ℕ} {r : Report} (h : r.err = 0) :
    dataReports a [.report (some b) r] = if b = a then [r] else [] := by
  by_cases hb : b = a <;> simp [dataReports, h, hb]

theorem dataReports_drop (b : ℕ) : dataReports a [.remove b, .destroy b] = [] := rfl

end Trace

namespace Server

variable {s s' : Server} {β : ℕ → List UInt8} {a : ℕ} {cb : Callback}

/-- **The sessions received the bytes `β`** and reported the bodies in them. -/
structure Framed (β : ℕ → List UInt8) (s : Server) : Prop extends Inv s where
  receives : ∀ a, a < s.allocated → (s.sess a).Receives (frameTail (β a))
  fresh : ∀ a, s.allocated ≤ a →
    β a = [] ∧ (s.sess a).recvBytes = 0 ∧ (s.sess a).bodySize = 0
  reports : ∀ a, dataReports a s.trace =
    (frameBodies (β a)).map fun b => dataReport (s.sess a).serial (b.map some)

theorem Framed.of_same (hs : Framed β s) (hi : s'.Inv) (ha : s'.allocated = s.allocated)
    (hσ : ∀ a, (s.sess a).SameReceiver (s'.sess a))
    (ht : ∀ a, dataReports a s'.trace = dataReports a s.trace) : Framed β s' where
  toInv := hi
  receives a h := (hs.receives a (ha ▸ h)).of_same (hσ a)
  fresh a h := by
    obtain ⟨-, -, -, h1, h2⟩ := hσ a
    rw [h1, h2]
    exact hs.fresh a (ha ▸ h)
  reports a := by rw [ht, (hσ a).1]; exact hs.reports a

/-- No call of the API, no report but a data callback, and no removal touches a receiver. -/
theorem framed_stable (β : ℕ → List UInt8) : Stable (fun _ r => r.err ≠ 0) (Framed β) := by
  apply Stable.of_inv
  case inv => exact fun s hs => hs.toInv
  case quiet =>
    intro s s' hq hi hs
    apply hs.of_same hi (by rw [hq.rest]) (fun a => (hq.sess a).sameReceiver)
    intro a
    rw [hq.rest]
  case drop =>
    intro s a hi hs
    refine hs.of_same hi rfl ?_ ?_
    · intro b
      obtain ⟨h, hb⟩ := exists_drop_sess s a b
      rw [hb]
      exact ⟨rfl, rfl, rfl, rfl, rfl⟩
    · intro b
      rw [drop_trace, dataReports_append, dataReports_drop, List.append_nil]
  case stop =>
    intro s s' he hi hs
    rw [he] at hi ⊢
    exact hs.of_same hi rfl (fun a => ⟨rfl, rfl, rfl, rfl, rfl⟩) (fun a => rfl)
  case report =>
    intro s who r hr hi hs
    refine hs.of_same hi rfl (fun a => ⟨rfl, rfl, rfl, rfl, rfl⟩) ?_
    intro a
    rw [log, dataReports_append, dataReports_report hr, List.append_nil]

theorem newSession_receives (now : UInt64) (h : UvHandle) (n : UInt32) :
    ({ newSession now with serial := n, handle := h } : Session).Receives [] := by
  have h128 : DEFAULT_RECV_BUF_SIZE.toNat = 128 := rfl
  refine ⟨by simp [newSession, qsfMalloc], le_of_eq h128.symm, ?_, ?_, .inl ?_⟩
  · exact le_of_eq_of_le h128 (by norm_num)
  · exact Nat.zero_le _
  · exact ⟨rfl, by simp, rfl, by simp⟩

/-- A new session, added to the map or not, starts with an empty receiver. -/
theorem Framed.created (hs : Framed β s) (hi : s'.Inv) (ha : s'.allocated = s.allocated + 1)
    (hne : ∀ b, b ≠ s.allocated → s'.sess b = s.sess b) (hnew : (s'.sess s.allocated).Receives [])
    (ht : ∀ a, dataReports a s'.trace = dataReports a s.trace) : Framed β s' where
  toInv := hi
  receives b hb := by
    by_cases he : b = s.allocated
    · rw [he, (hs.fresh _ (le_refl _)).1, frameTail_nil]; exact hnew
    · rw [hne b he]; exact hs.receives b (by omega)
  fresh b hb := by
    rw [hne b (by omega)]
    exact hs.fresh b (by omega)
  reports b := by
    rw [ht, hs.reports]
    by_cases he : b = s.allocated
    · rw [he, (hs.fresh _ (le_refl _)).1, frameBodies_nil, List.map_nil, List.map_nil]
    · rw [hne b he]

theorem Framed.outside (hs : Framed β s) (h : Outside s s') : Framed β s' := by
  refine hs.of_same (hs.toInv.outside h) (by rw [h]) ?_ (fun a => by rw [h])
  intro a
  rw [h]
  exact ⟨rfl, rfl, rfl, rfl, rfl⟩

theorem framed_connection (hs : Framed β s) (err : ℤ) (now : UInt64) (acc peer rd : ℤ) :
    Framed β (s.onConnection cb err now acc peer rd) := by
  rcases onConnection_cases cb hs.toOK err now acc peer rd with
    ⟨h, -⟩ | ⟨h, -⟩ | ⟨h, -⟩ | ⟨h, -⟩ | ⟨n, h, -, -, hc, -⟩
  · rw [h]; exact hs
  · rw [h]; exact (framed_stable β).move _ _ (.quiet quiet_abort) hs
  · have hne : limitReport.err ≠ 0 := by decide
    rw [h]
    exact (framed_stable β).callOnRead hne hs
  · rw [h]
    refine hs.created hs.toInv.refused rfl ?_ ?_ ?_
    · intro b hb
      exact Function.update_of_ne hb _ _
    · simp only [refused, Function.update_self]
      exact newSession_receives now _ 0
    · intro a
      exact (dataReports_append _).trans (List.append_nil _)
  · rw [h]
    refine hs.created (hs.toInv.accepted hc) rfl ?_ ?_ ?_
    · intro b hb
      exact Function.update_of_ne hb _ _
    · simp only [accepted, Function.update_self]
      exact newSession_receives now _ n
    · intro a
      exact (dataReports_append _).trans (List.append_nil _)

/-! ## Reads -/

/-- **`on_session_alloc`** of a sound receiver passes its `assert`, and offers the rest
of the header or of the body. -/
theorem onSessionAlloc_room {t : List UInt8} (h : (s.sess a).Receives t) :
    s.onSessionAlloc a = (s, (s.sess a).recvBytes.toNat, (s.sess a).room) := by
  unfold onSessionAlloc Session.room
  have hlt := (s.sess a).bodySize.toNat_lt
  rcases h.state with ⟨hz, ht, hr, -⟩ | ⟨b0, b1, q, -, hn, hq, hr, -⟩
  · have hz' : (s.sess a).bodySize = 0 := UInt16.toNat_inj.1 hz
    simp only [hz', if_true]
    rw [if_neg (by omega)]
    rfl
  · have hz' : (s.sess a).bodySize ≠ 0 := fun e => by rw [e] at hq; simp at hq
    have hz'' : ¬ (s.sess a).bodySize.toNat = 0 := by omega
    simp only [hz', hz'', if_false]
    congr 2
    omega

/-- The bytes of session `a` grow by `bytes`. -/
def feed (β : ℕ → List UInt8) (a : ℕ) (bytes : List UInt8) : ℕ → List UInt8 :=
  fun b => if b = a then β b ++ bytes else β b

theorem fill_serial (σ : Session) (now : UInt64) (nread : ℤ) :
    (σ.fill now nread).1.serial = σ.serial := (σ.fill_same now nread).1

/-- A session took in `bytes`, and the bodies completed by them were reported. -/
theorem Framed.received {bytes : List UInt8} {σ : Session} {tr : List TraceEvent} (hs : Framed β s)
    (ha : a ∈ s.members) (hσ : σ.Receives (frameTail (frameTail (β a) ++ bytes)))
    (hser : σ.serial = (s.sess a).serial)
    (htr : ∀ b, dataReports b tr = dataReports b s.trace ++ if a = b then
      (frameBodies (frameTail (β a) ++ bytes)).map fun m => dataReport σ.serial (m.map some) else []) :
    Framed (feed β a bytes) { s.setSess a σ with trace := tr } := by
  refine ⟨(hs.toInv.setSess fun _ => ha).of_eq rfl rfl rfl rfl, ?_, ?_, ?_⟩
  · intro b hlt
    show ((s.setSess a σ).sess b).Receives _
    rw [setSess_eq]
    by_cases hba : b = a
    · rw [if_pos hba, feed, if_pos hba, hba, frameTail_append (β a)]
      exact hσ
    · rw [if_neg hba, feed, if_neg hba]
      exact hs.receives b hlt
  · intro b hge
    have hba : b ≠ a := fun e => by
      have hlt := hs.bound a ha
      rw [e] at hge
      exact absurd hlt (not_lt.2 hge)
    show _ ∧ ((s.setSess a σ).sess b).recvBytes = 0 ∧ ((s.setSess a σ).sess b).bodySize = 0
    rw [setSess_ne σ hba, feed, if_neg hba]
    exact hs.fresh b hge
  · intro b
    show dataReports b tr = (frameBodies (feed β a bytes b)).map fun m =>
      dataReport ((s.setSess a σ).sess b).serial (m.map some)
    rw [htr, hs.reports b, setSess_eq]
    by_cases hba : b = a
    · rw [if_pos hba, if_pos hba.symm, feed, if_pos hba, hba, frameBodies_append (β a),
        List.map_append, hser]
    · rw [if_neg hba, if_neg (Ne.symm hba), feed, if_neg hba, List.append_nil]

/-- **A read** feeds its bytes to the session. -/
theorem framed_read (hs : Framed β s) (now : UInt64) {bytes : List UInt8}
    (hact : (s.sess a).handle.active = true) (hlen : bytes.length ≤ (s.onSessionAlloc a).2.2) :
    Framed (feed β a bytes) (s.sessionRead cb a now (.data bytes)) := by
  have hmem := hs.active a hact
  have hrec := hs.receives a (hs.bound a hmem)
  obtain ⟨t, ht, he⟩ := sessionRead_data s cb a now bytes
  have hts : Framed β t := by
    rcases ht with rfl | rfl
    · exact hs
    · exact (framed_stable β).move _ _ (.quiet quiet_abort) hs
  have htsess : t.sess = s.sess := by rcases ht with rfl | rfl <;> rfl
  have htm : a ∈ t.members := by rcases ht with rfl | rfl <;> exact hmem
  rw [he]
  -- a read of nothing changes nothing
  by_cases hb : bytes = []
  · have hfeed : feed β a bytes = β := by
      funext b
      simp [feed, hb]
    rw [if_pos hb, hfeed]
    exact hts
  rw [if_neg hb]
  rw [onSessionAlloc_room hrec] at hlen
  obtain ⟨hrec', hrep⟩ := hrec.read now hb hlen
  have hser := fill_serial ((s.sess a).copied bytes) now bytes.length
  rw [show ((s.sess a).copied bytes).serial = (t.sess a).serial by rw [htsess]; rfl] at hser
  split
  · -- the frame is still unfinished, or its body is empty
    rename_i σ hfill
    rw [hfill] at hrec' hrep hser
    have hnone : frameBodies (frameTail (β a) ++ bytes) = [] := by simpa using hrep.symm
    apply hts.received htm hrec' hser
    intro b
    rw [hnone]
    simp
  · -- the body is complete
    rename_i σ body hfill
    rw [hfill] at hrec' hrep hser
    -- there is one body, the one reported
    have hbody : ((frameBodies (frameTail (β a) ++ bytes)).map fun m =>
        dataReport σ.serial (m.map some)) = [dataReport σ.serial body] := by
      have := congrArg (List.map (dataReport σ.serial)) hrep.symm
      simpa only [List.map_map, Function.comp_def, Option.toList_some, List.map_cons, List.map_nil]
        using this
    have hdata : (dataReport σ.serial body).err = 0 := rfl
    have hlog : Framed (feed β a bytes)
        ((t.setSess a σ).log (.report (some a) (dataReport σ.serial body))) := by
      apply hts.received htm hrec' hser
      intro b
      rw [hbody, dataReports_append, dataReports_data hdata]
      rfl
    have hok : (t.setSess a σ).OK := hts.toOK.of_eq rfl rfl
    exact (framed_stable _).moves (callOnRead_moves hok cb _ _) hlog

/-! ## Runs -/

theorem bytesRead_cons (a : ℕ) (e : Event) (es : List Event) :
    bytesRead a (e :: es) = bytesRead a [e] ++ bytesRead a es := by
  obtain ⟨input, cb⟩ := e
  cases input with
  | read b now r =>
    cases r with
    | data bytes => by_cases hb : b = a <;> simp [bytesRead, hb]
    | error code => rfl
  | start | connection | tick | op | turn => rfl

/-- **One event** feeds the bytes it read. -/
theorem framed_step (hs : Framed β s) {e : Event} (he : s.enabled e) :
    Framed (fun a => β a ++ bytesRead a [e]) (s.step e) := by
  have hinv := inv_step e hs.toInv he
  obtain ⟨input, cb⟩ := e
  have hnone : ∀ t : Server, Framed β t → Framed (fun a => β a ++ []) t := by
    intro t ht
    simpa using ht
  cases input with
  | start r => exact hnone _ (hs.outside (outside_start r))
  | connection err now acc peer rd =>
    exact hnone _ (framed_connection (hs.outside (outside_pending err)) err now acc peer rd)
  | read a now r =>
    cases r with
    | data bytes =>
      have hfeed : (fun b => β b ++ bytesRead b [⟨.read a now (.data bytes), cb⟩]) = feed β a bytes := by
        funext b
        by_cases hb : b = a
        · simp [bytesRead, feed, hb]
        · simp [bytesRead, feed, hb, Ne.symm hb]
      rw [hfeed]
      exact framed_read hs now he.1 he.2
    | error code =>
      have hne : (errorReport code (s.sess a).serial).err ≠ 0 := he.2.ne
      exact hnone _ ((framed_stable β).readError he.2 hne hs)
  | tick now =>
    have hne : ∀ (a : ℕ) (n : UInt32), (timeoutReport n).err ≠ 0 := fun _ _ =>
      show NET_ERR_TIMEOUT ≠ 0 by decide
    exact hnone _ ((framed_stable β).sweep hne (hs.outside outside_timer))
  | op o => exact hnone _ ((framed_stable β).moves (call_moves hs.toOK o) hs)
  | turn =>
    refine hnone _ (hs.of_same hinv rfl ?_ (fun a => rfl))
    intro a
    show (s.sess a).SameReceiver (s.sess a).turn
    unfold Session.turn
    split <;> exact ⟨rfl, rfl, rfl, rfl, rfl⟩

/-- **A run** feeds the bytes it read. -/
theorem framed_run {es : List Event} (hs : Framed β s) (hr : netServer.Runs s es) :
    Framed (fun a => β a ++ bytesRead a es) (netServer.exec s es) := by
  induction es generalizing s β with
  | nil => simpa [bytesRead, Machine.exec] using hs
  | cons e es ih =>
    have h := ih (framed_step hs hr.1) hr.2
    simp only [List.append_assoc, ← bytesRead_cons] at h
    exact h

theorem framed_create (m : UInt32) (h c : UInt16) :
    Framed (fun _ => []) (qsfCreateNetServer m h c) where
  toInv := inv_create m h c
  receives a ha := absurd ha (Nat.not_lt_zero a)
  fresh a _ := ⟨rfl, rfl, rfl⟩
  reports a := by rw [frameBodies_nil]; rfl

/-! ## The encoder -/

/-- **`do_session_write`** of a whole message queues its frame. -/
theorem doSessionWrite_eq {m : List UInt8} (h1 : 1 ≤ m.length) (h2 : m.length ≤ 65535) :
    s.doSessionWrite a m (UInt16.ofNat m.length) 0 =
      (0, s.setSess a { s.sess a with out := (s.sess a).out ++ frame m }) := by
  have hn : (UInt16.ofNat m.length).toNat = m.length := by
    rw [UInt16.toNat_ofNat']
    omega
  have hz : UInt16.ofNat m.length ≠ 0 := fun e => by rw [e] at hn; simp at hn; omega
  unfold doSessionWrite
  rw [if_neg hz, if_neg (lt_irrefl _)]
  simp only [storeU16_htons, hn, List.take_length]
  rfl

theorem doSessionWrite_out {m : List UInt8} (h1 : 1 ≤ m.length) (h2 : m.length ≤ 65535) :
    ((s.doSessionWrite a m (UInt16.ofNat m.length) 0).2.sess a).out = (s.sess a).out ++ frame m := by
  rw [doSessionWrite_eq h1 h2, setSess_self]

/-- Messages written in turn put their frames on the wire. -/
theorem writeMessages_out {msgs : List (List UInt8)}
    (h : ∀ m ∈ msgs, 1 ≤ m.length ∧ m.length ≤ 65535) :
    ((writeMessages s a msgs).sess a).out = (s.sess a).out ++ (msgs.map frame).flatten := by
  induction msgs generalizing s with
  | nil => simp [writeMessages]
  | cons m msgs ih =>
    have hm := h m List.mem_cons_self
    have := ih (s := (s.doSessionWrite a m (UInt16.ofNat m.length) 0).2)
      (fun x hx => h x (List.mem_cons_of_mem _ hx))
    rw [doSessionWrite_out hm.1 hm.2] at this
    rw [List.map_cons, List.flatten_cons, ← List.append_assoc]
    exact this

theorem frameBodies_frames {msgs : List (List UInt8)}
    (h : ∀ m ∈ msgs, 1 ≤ m.length ∧ m.length ≤ 65535) :
    frameBodies (msgs.map frame).flatten = msgs ∧ frameTail (msgs.map frame).flatten = [] := by
  have hp := parse_frames fun m hm => (h m hm).2
  refine ⟨?_, by rw [frameTail, hp]⟩
  rw [frameBodies, hp, List.filter_eq_self]
  intro m hm
  have := (h m hm).1
  simp only [ne_eq, decide_eq_true_eq]
  rintro rfl
  simp at this

end Server

theorem Session.Receives.idle {σ : Session} (h : σ.Receives []) :
    σ.recvBytes = 0 ∧ σ.bodySize = 0 := by
  rcases h.state with ⟨hz, -, hr, -⟩ | ⟨_, _, _, e, -⟩
  · exact ⟨UInt16.toNat_inj.1 hr, UInt16.toNat_inj.1 hz⟩
  · simp at e

/-- **The decoder against the wire format and against the encoder.** In every run, for
any callbacks and any cut into reads, the data callbacks of a session are the non-empty
bodies of the bytes it was fed; when these are the frames written for a list of messages,
they are the messages, and the receiver ends between two frames. -/
theorem deliver_bodies {s₀ : Server} {es : List Event} (h₀ : netServer.init s₀)
    (hr : netServer.Runs s₀ es) (a : ℕ) :
    (dataReports a (netServer.exec s₀ es).trace =
      (frameBodies (bytesRead a es)).map fun m =>
        dataReport ((netServer.exec s₀ es).sess a).serial (m.map some)) ∧
    ∀ (t : Server) (b : ℕ) (msgs : List (List UInt8)), (t.sess b).out = [] →
      (∀ m ∈ msgs, 1 ≤ m.length ∧ m.length ≤ 65535) →
      bytesRead a es = ((writeMessages t b msgs).sess b).out →
      (dataReports a (netServer.exec s₀ es).trace =
        msgs.map fun m => dataReport ((netServer.exec s₀ es).sess a).serial (m.map some)) ∧
      ((netServer.exec s₀ es).sess a).recvBytes = 0 ∧ ((netServer.exec s₀ es).sess a).bodySize = 0 := by
  obtain ⟨m, h, c, rfl⟩ := h₀
  have hf := framed_run (framed_create m h c) hr
  refine ⟨hf.reports a, ?_⟩
  intro t b msgs hout hmsgs hin
  rw [writeMessages_out hmsgs, hout, List.nil_append] at hin
  obtain ⟨hbodies, htail⟩ := frameBodies_frames hmsgs
  refine ⟨?_, ?_⟩
  · have hrep := hf.reports a
    rw [List.nil_append, hin, hbodies] at hrep
    exact hrep
  · by_cases ha : a < (netServer.exec (qsfCreateNetServer m h c) es).allocated
    · have hrec := hf.receives a ha
      rw [List.nil_append, hin, htail] at hrec
      exact hrec.idle
    · exact (hf.fresh a (not_lt.1 ha)).2

/-- One message of one byte, its frame cut inside the header. -/
theorem deliver_bodies_split :
    let es := accepting ++
      [.quiet (.read 0 0 (.data [0])), .quiet (.read 0 0 (.data [1])), .quiet (.read 0 1 (.data [7]))]
    let s := netServer.exec (qsfCreateNetServer 1 10 10) es
    dataReports 0 s.trace = [dataReport (s.sess 0).serial [some 7]] ∧
      (s.sess 0).recvBytes = 0 ∧ (s.sess 0).bodySize = 0 := by
  intro es s
  have hr : netServer.Runs (qsfCreateNetServer 1 10 10) es :=
    ⟨trivial, rfl, ⟨rfl, by decide⟩, ⟨rfl, by decide⟩, ⟨rfl, by decide⟩, trivial⟩
  exact (deliver_bodies ⟨1, 10, 10, rfl⟩ hr 0).2 (qsfCreateNetServer 1 10 10) 0 [[7]] rfl
    (by decide) (by decide)

end Qsf
