import Qsf.Spec.Router

/-!
# The router and the bounds of messages

`dispatch_message` receives three frames, whatever they belong to. A message of two parts
behind the identity is three frames. After any other message the next call starts in the
middle of one.

* `dispatchMessage_run`: one call, as three receives and a forward.
* `dispatch_pair`, `pair_of_dispatch`: one call consumes a message of two parts, and no
  other.
* `stays_aligned_iff`: exactly which sequences keep the router aligned. A message of two parts
  that is refused ends the loop, so it can only be the last.
-/

set_option autoImplicit false

namespace Qsf

namespace RouterRun

variable {ι : Type} {mandatory : Bool} {lookup : Frame → Option ι} {s s' : RouterRun ι}

/-! ## One call -/

/-- No message is half sent. -/
def Unsent (s : RouterRun ι) : Prop := s.socket.target = none ∧ s.socket.sending = []

/-- The three frames sent on: what the last call returns, and the router after it. -/
def forward (mandatory : Bool) (lookup : Frame → Option ι) (s : RouterRun ι)
    (fromMsg toMsg msg : Frame) : ℤ × RouterRun ι :=
  if mandatory && (lookup toMsg).isNone then (-1, s)
  else (msg.length, { s with delivered := s.delivered ++ ((lookup toMsg).map (·, [fromMsg, msg])).toList })

theorem recv_unsent {f : Frame} (h : s.recv = some (f, s')) (hs : s.Unsent) : s'.Unsent := by
  unfold recv at h
  split at h
  · cases h
    exact hs
  · cases h
    exact hs
  · cases h

/-- A message that is sent on leaves nothing behind in the socket. -/
theorem forward_socket {fromMsg toMsg msg : Frame} {r : ℤ}
    (h : s.forward mandatory lookup fromMsg toMsg msg = (r, s')) :
    s'.socket = s.socket ∧ s'.incoming = s.incoming := by
  unfold forward at h
  split at h
  · cases h
    exact ⟨rfl, rfl⟩
  · cases h
    exact ⟨rfl, rfl⟩

/-- To a destination that is not there nothing goes out, refused or not. -/
theorem forward_delivered {fromMsg toMsg msg : Frame} :
    (s.forward mandatory lookup fromMsg toMsg msg).2.delivered =
      s.delivered ++ ((lookup toMsg).map (·, [fromMsg, msg])).toList := by
  unfold forward
  split_ifs with hm
  · rw [Bool.and_eq_true, Option.isNone_iff_eq_none] at hm
    rw [hm.2]
    exact (List.append_nil _).symm
  · rfl

theorem msgRecv_run {α : Type} (dontwait : Bool) (k : Option Frame → Zmq α) :
    (zmqMsgRecv dontwait >>= k).run (answer mandatory lookup) s =
      s.recv.bind fun f => (k (some f.1)).run (answer mandatory lookup) f.2 := by
  show (s.recv.map fun f => ((some f.1 : Option Frame), f.2)).bind
    (fun f => (k f.1).run (answer mandatory lookup) f.2) = _
  rw [Option.bind_map]
  rfl

theorem msgSend_run {α : Type} (msg : Frame) (more : Bool) (k : ℤ → Zmq α) :
    (zmqMsgSend msg more >>= k).run (answer mandatory lookup) s =
      (k (s.socket.send mandatory lookup msg more).1).run (answer mandatory lookup)
        { s with
          socket := (s.socket.send mandatory lookup msg more).2.1
          delivered := s.delivered ++ (s.socket.send mandatory lookup msg more).2.2.toList } := rfl

/-- **One call of `dispatch_message`.** -/
theorem dispatchMessage_run (hs : s.Unsent) :
    dispatchMessage.run (answer mandatory lookup) s =
      s.recv.bind fun f => f.2.recv.bind fun t => t.2.recv.map fun m =>
        m.2.forward mandatory lookup f.1 t.1 m.1 := by
  rw [dispatchMessage, msgRecv_run]
  rcases h1 : s.recv with _ | ⟨fromMsg, s1⟩
  · rfl
  have hs1 := recv_unsent h1 hs
  simp only [Option.bind_some]
  rw [msgRecv_run]
  rcases h2 : s1.recv with _ | ⟨toMsg, s2⟩
  · rfl
  have hs2 := recv_unsent h2 hs1
  simp only [Option.bind_some]
  rw [msgRecv_run]
  rcases h3 : s2.recv with _ | ⟨msg, s3⟩
  · rfl
  obtain ⟨ht, hsend⟩ := recv_unsent h3 hs2
  simp only [Option.bind_some, Option.map_some]
  rw [msgSend_run]
  unfold forward
  by_cases hm : (mandatory && (lookup toMsg).isNone) = true
  · -- the destination is refused: `goto cleanup`
    rw [RouterSocket.send_refused ht hm, if_pos hm]
    simp
  · rw [RouterSocket.send_destination ht hm, if_neg hm, if_neg (by simp), msgSend_run,
      RouterSocket.send_part rfl, if_neg (by simp)]
    rcases s3 with ⟨incoming, ⟨receiving, target, sending⟩, delivered⟩
    obtain rfl : target = none := ht
    obtain rfl : sending = [] := hsend
    simp only [Option.toList_none, List.append_nil, List.nil_append]
    rfl

/-! ## One message -/

variable {m : Incoming} {ms : List Incoming}

/-- The router between two messages, with `m` next. -/
theorem recv_identity (hin : s.incoming = m :: ms) (hr : s.socket.receiving = []) :
    s.recv = some (m.identity,
      { s with incoming := ms, socket := { s.socket with receiving := m.parts } }) := by
  simp only [recv, hin, hr]

/-- **A message of two parts** is consumed by one call, and sent on. -/
theorem dispatch_pair {toMsg msg : Frame} (hs : s.Unsent) (hin : s.incoming = m :: ms)
    (hr : s.socket.receiving = []) (hp : m.parts = [toMsg, msg]) :
    dispatchMessage.run (answer mandatory lookup) s =
      some ({ s with incoming := ms }.forward mandatory lookup m.identity toMsg msg) := by
  rw [dispatchMessage_run hs, recv_identity hin hr, hp]
  rcases s with ⟨incoming, ⟨receiving, target, sending⟩, delivered⟩
  obtain rfl : receiving = [] := hr
  rfl

/-- **Only a message of two parts** is consumed by one call, to its end. -/
theorem pair_of_dispatch {r : ℤ} (hs : s.Unsent) (hin : s.incoming = m :: ms)
    (hr : s.socket.receiving = []) (hrun : dispatchMessage.run (answer mandatory lookup) s = some (r, s'))
    (hr' : s'.socket.receiving = []) : ∃ toMsg msg, m.parts = [toMsg, msg] := by
  rw [dispatchMessage_run hs, recv_identity hin hr, Option.bind_some] at hrun
  rcases hp : m.parts with _ | ⟨toMsg, _ | ⟨msg, _ | ⟨part, rest⟩⟩⟩
  · exact absurd hp m.nonempty
  · -- the third frame is the identity of the next message
    simp only [recv, hp, Option.bind_some] at hrun
    rcases ms with _ | ⟨next, ms⟩
    · cases hrun
    · simp only [Option.map_some, Option.some.injEq] at hrun
      rw [(forward_socket hrun).1] at hr'
      exact absurd hr' next.nonempty
  · exact ⟨toMsg, msg, rfl⟩
  · simp only [recv, hp, Option.bind_some, Option.map_some, Option.some.injEq] at hrun
    rw [(forward_socket hrun).1] at hr'
    exact absurd hr' (List.cons_ne_nil part rest)

/-! ## The loop -/

theorem dispatch_unsent {r : ℤ} (hs : s.Unsent)
    (hrun : dispatchMessage.run (answer mandatory lookup) s = some (r, s')) : s'.Unsent := by
  rw [dispatchMessage_run hs] at hrun
  obtain ⟨⟨fromMsg, s1⟩, h1, hrun⟩ := Option.bind_eq_some_iff.1 hrun
  obtain ⟨⟨toMsg, s2⟩, h2, hrun⟩ := Option.bind_eq_some_iff.1 hrun
  obtain ⟨⟨msg, s3⟩, h3, hrun⟩ := Option.map_eq_some_iff.1 hrun
  have hs3 := recv_unsent h3 (recv_unsent h2 (recv_unsent h1 hs))
  unfold Unsent
  rw [(forward_socket hrun).1]
  exact hs3

theorem loop_unsent {n : ℕ} (hs : s.Unsent) (h : qsfStartLoop mandatory lookup n s = some s') :
    s'.Unsent := by
  induction n generalizing s with
  | zero =>
    cases h
    exact hs
  | succ n ih =>
    rw [qsfStartLoop] at h
    split at h
    · cases h
    · rename_i r t hrun
      split at h
      · cases h
      · exact ih (dispatch_unsent hs hrun) h

theorem loop_succ {n : ℕ} :
    qsfStartLoop mandatory lookup (n + 1) s =
      (qsfStartLoop mandatory lookup n s).bind (qsfStartLoop mandatory lookup 1) := by
  induction n generalizing s with
  | zero => rfl
  | succ n ih =>
    rw [qsfStartLoop, qsfStartLoop]
    split
    · rfl
    · split
      · rfl
      · exact ih

/-- **Each call consumes one message**: before call `k` the router is between two messages with
`k` of them behind it, and after it with `k + 1`. If the message has a destination and a body, the
body goes out to the destination, behind the identity of its sender; to a destination that is not
there nothing goes out. -/
def StaysAligned (mandatory : Bool) (lookup : Frame → Option ι) (msgs : List Incoming) : Prop :=
  ∀ k (hk : k < msgs.length), ∃ (s s' : RouterRun ι) (bytes : ℤ),
    qsfStartLoop mandatory lookup k (start msgs) = some s ∧
    dispatchMessage.run (answer mandatory lookup) s = some (bytes, s') ∧
    s.incoming = msgs.drop k ∧ s.socket.receiving = [] ∧
    s'.incoming = msgs.drop (k + 1) ∧ s'.socket.receiving = [] ∧
    ∀ toMsg msg, msgs[k].parts = [toMsg, msg] → s'.delivered =
      s.delivered ++ ((lookup toMsg).map (·, [msgs[k].identity, msg])).toList

/-- The message has two parts behind the identity. -/
def Pair (m : Incoming) : Prop := ∃ toMsg msg, m.parts = [toMsg, msg]

/-- The message has two parts behind the identity, and is not refused. -/
def Accepted (mandatory : Bool) (lookup : Frame → Option ι) (m : Incoming) : Prop :=
  ∃ toMsg msg, m.parts = [toMsg, msg] ∧ (mandatory = true → (lookup toMsg).isSome = true)

theorem mem_dropLast {msgs : List Incoming} {k : ℕ} (hk : k + 1 < msgs.length) : msgs[k] ∈ msgs.dropLast := by
  have hlt : k < msgs.dropLast.length := by
    rw [List.length_dropLast]
    omega
  rw [← List.getElem_dropLast hlt]
  exact List.getElem_mem hlt

/-- A round with a message that is accepted. -/
theorem loop_accepted (hs : s.Unsent) (hin : s.incoming = m :: ms) (hr : s.socket.receiving = [])
    (hm : Accepted mandatory lookup m) :
    ∃ s', qsfStartLoop mandatory lookup 1 s = some s' ∧ s'.incoming = ms ∧ s'.socket = s.socket ∧
      ∀ toMsg msg, m.parts = [toMsg, msg] → s'.delivered =
        s.delivered ++ ((lookup toMsg).map (·, [m.identity, msg])).toList := by
  obtain ⟨toMsg, msg, hp, hknown⟩ := hm
  have hsend : ¬ (mandatory && (lookup toMsg).isNone) = true := by
    rw [Bool.and_eq_true, Option.isNone_iff_eq_none]
    rintro ⟨h1, h2⟩
    have h := hknown h1
    rw [h2] at h
    cases h
  refine ⟨{ s with
    incoming := ms
    delivered := s.delivered ++ ((lookup toMsg).map (·, [m.identity, msg])).toList }, ?_, rfl, rfl, ?_⟩
  · rw [qsfStartLoop, dispatch_pair hs hin hr hp]
    simp only [forward, if_neg hsend, qsfStartLoop]
    rw [if_neg (by omega)]
  · intro toMsg' msg' hp'
    rw [hp] at hp'
    cases hp'
    rfl

/-- A round that ends behind its message consumed an accepted one. -/
theorem accepted_of_loop (hs : s.Unsent) (hin : s.incoming = m :: ms) (hr : s.socket.receiving = [])
    (hrun : qsfStartLoop mandatory lookup 1 s = some s') (hr' : s'.socket.receiving = []) :
    Accepted mandatory lookup m := by
  rw [qsfStartLoop] at hrun
  split at hrun
  · cases hrun
  rename_i r t ht
  split at hrun
  · cases hrun
  rename_i hneg
  cases hrun
  obtain ⟨toMsg, msg, hp⟩ := pair_of_dispatch hs hin hr ht hr'
  refine ⟨toMsg, msg, hp, ?_⟩
  intro hmand
  -- a refused destination would have ended the loop
  by_contra hnone
  rw [dispatch_pair hs hin hr hp, Option.some.injEq, forward, if_pos (by simpa [hmand] using hnone)] at ht
  cases ht
  omega

/-- While the messages before it are accepted, round `k` finds the router behind `k` messages. -/
theorem loop_aligned {msgs : List Incoming} (h : ∀ m ∈ msgs.dropLast, Accepted mandatory lookup m) {k : ℕ}
    (hk : k < msgs.length) :
    ∃ s : RouterRun ι, qsfStartLoop mandatory lookup k (start msgs) = some s ∧ s.incoming = msgs.drop k ∧
      s.socket = .idle := by
  induction k with
  | zero => exact ⟨start msgs, rfl, rfl, rfl⟩
  | succ k ih =>
    obtain ⟨s, hs, hin, hsock⟩ := ih (by omega)
    rw [List.drop_eq_getElem_cons (by omega)] at hin
    have hun : s.Unsent := by
      unfold Unsent
      rw [hsock]
      exact ⟨rfl, rfl⟩
    obtain ⟨s', hs', hin', hsock', -⟩ := loop_accepted hun hin (by rw [hsock]; rfl) (h _ (mem_dropLast hk))
    exact ⟨s', by rw [loop_succ, hs, Option.bind_some, hs'], hin', by rw [hsock', hsock]⟩

/-- **The router stays aligned** exactly when every message is a pair and every one but the last
is accepted: a refused destination ends the loop. -/
theorem stays_aligned_iff (mandatory : Bool) (lookup : Frame → Option ι) (msgs : List Incoming) :
    StaysAligned mandatory lookup msgs ↔
      (∀ m ∈ msgs, Pair m) ∧ ∀ m ∈ msgs.dropLast, Accepted mandatory lookup m := by
  constructor
  · intro h
    refine ⟨?_, ?_⟩
    · intro m hm
      obtain ⟨k, hk, rfl⟩ := List.getElem_of_mem hm
      obtain ⟨s, s', bytes, hs, hrun, hin, hr, -, hr', -⟩ := h k hk
      rw [List.drop_eq_getElem_cons hk] at hin
      exact pair_of_dispatch (loop_unsent ⟨rfl, rfl⟩ hs) hin hr hrun hr'
    · intro m hm
      obtain ⟨k, hk, rfl⟩ := List.getElem_of_mem hm
      rw [List.length_dropLast] at hk
      rw [List.getElem_dropLast]
      -- the loop came to the next message
      obtain ⟨s, -, -, hs, -, hin, hr, -⟩ := h k (by omega)
      obtain ⟨t, -, -, ht, -, -, hr', -⟩ := h (k + 1) (by omega)
      rw [loop_succ, hs, Option.bind_some] at ht
      rw [List.drop_eq_getElem_cons (by omega)] at hin
      exact accepted_of_loop (loop_unsent ⟨rfl, rfl⟩ hs) hin hr ht hr'
  · rintro ⟨hpair, hacc⟩ k hk
    obtain ⟨s, hs, hin, hsock⟩ := loop_aligned hacc hk
    obtain ⟨toMsg, msg, hp⟩ := hpair _ (List.getElem_mem hk)
    have hr : s.socket.receiving = [] := by rw [hsock]; rfl
    have hin' := hin
    rw [List.drop_eq_getElem_cons hk] at hin'
    have hrun : dispatchMessage.run (answer mandatory lookup) s = some (_, _) :=
      dispatch_pair (loop_unsent ⟨rfl, rfl⟩ hs) hin' hr hp
    obtain ⟨hsock', hin''⟩ := forward_socket (rfl : _ = (_, _))
    refine ⟨s, _, _, hs, hrun, hin, hr, ?_, ?_, ?_⟩
    · exact hin''
    · rw [hsock']
      exact hr
    · intro toMsg' msg' hp'
      rw [hp] at hp'
      cases hp'
      exact forward_delivered

/-- The peer `"b"`, and no other. -/
def onlyB (name : Frame) : Option ℕ := if name = [98] then some 1 else none

/-- One part from a script's own socket, and the message `"hi"` from `"a"` to `"b"` behind it:
the router takes the identity `"a"` for the text of a message to nowhere. -/
theorem single_part_misaligns : ¬ StaysAligned false onlyB
    [⟨[120], [[121]], by decide⟩, ⟨[97], [[98], [104, 105]], by decide⟩] := by
  intro h
  obtain ⟨s, s', bytes, hs, hs', -, -, -, hr', -⟩ := h 0 (by decide)
  cases hs
  cases hs'
  cases hr'

end RouterRun

end Qsf
