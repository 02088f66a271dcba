import Qsf.Spec.LuaZmq

/-!
# Frames survive the binding, unless they are empty

Both functions take a count of bytes that is not positive for a failure. The frames that are
under way are those that were queued and not returned yet (`Faithful.order`), as long as no
frame is empty: `faithful_iff`.
-/

set_option autoImplicit false

namespace Qsf

/-- The call said what became of its frame. -/
def SendCall.Told (c : SendCall) : Prop :=
  if c.queued then ∃ v rest, c.results = v :: rest ∧ v ≠ .nil else c.results = [.nil, .integer c.errno]

namespace PairWorld

variable {w : PairWorld} {data : Frame} {flag errno : ℤ} {fails : Bool}

/-- **The binding hands frames on**: each call of `send` says what became of its frame, what
`recv` returned and what is under way is what was queued, in this order, and `recv` returns
nothing only when no frame was there or an error occurred. -/
structure Faithful (w : PairWorld) : Prop where
  told : ∀ c ∈ w.sends, c.Told
  order : w.recvs.flatMap RecvCall.results ++ (w.pair.queue ++ w.pair.pending).map .string =
    w.sent.map .string
  nothing : ∀ c ∈ w.recvs, c.results = [] → c.served = false

end PairWorld

/-- A frame that is queued is not empty. -/
def PairEvent.Nonempty : PairEvent → Prop
  | .send data _ queued _ => queued = true → data ≠ []
  | .recv _ => True

/-! ## The calls -/

theorem zsocketSend_queued {data : Frame} (h : data ≠ []) (errno : ℤ) :
    zsocketSend data.length errno = [.integer data.length] := by
  have hpos := List.length_pos_iff.2 h
  unfold zsocketSend
  rw [if_pos (by omega)]

/-- A failure, and a frame without bytes. -/
theorem zsocketSend_nonpos {rc : ℤ} (h : rc ≤ 0) (errno : ℤ) :
    zsocketSend rc errno = [.nil, .integer errno] := by
  unfold zsocketSend
  rw [if_neg (by omega)]

theorem zsocketRecv_frame {msg : Frame} (h : msg ≠ []) :
    zsocketRecv msg.length msg = [.string msg] := by
  have hpos := List.length_pos_iff.2 h
  unfold zsocketRecv
  rw [if_pos (by omega)]

theorem zsocketRecv_error (msg : Frame) : zsocketRecv (-1) msg = [] := by
  unfold zsocketRecv
  rw [if_neg (by omega)]

namespace PairWorld

variable {w : PairWorld} {data : Frame} {flag errno : ℤ} {fails : Bool}

/-! ## The steps -/

/-- The invariant: no frame under way is empty. -/
structure Inv (w : PairWorld) : Prop where
  faithful : w.Faithful
  nonempty : ∀ m ∈ w.pair.queue ++ w.pair.pending, m ≠ []

theorem inv_init : PairWorld.init.Inv :=
  ⟨⟨fun _ h => absurd h List.not_mem_nil, rfl, fun _ h => absurd h List.not_mem_nil⟩,
    fun _ h => absurd h List.not_mem_nil⟩

/-- Whether the message is complete or not, the frame goes to the end of what is under way. -/
theorem send_pair (p : ZmqPair) (data : Frame) (flag : ℤ) :
    (p.send data flag true).1 = data.length ∧
      (p.send data flag true).2.queue ++ (p.send data flag true).2.pending =
        p.queue ++ p.pending ++ [data] := by
  unfold ZmqPair.send
  cases hmore : sndmore flag with
  | true => simp only [Bool.not_true, Bool.false_eq_true, if_false, if_true, List.append_assoc, and_self]
  | false => simp only [Bool.not_true, Bool.false_eq_true, if_false, List.append_nil, and_self]

theorem inv_send (h : w.Inv) (hne : data ≠ []) : (w.step (.send data flag true errno)).Inv := by
  obtain ⟨hrc, hpair⟩ := send_pair w.pair data flag
  have hcall : zsocketSend (w.pair.send data flag true).1 errno = [.integer data.length] := by
    rw [hrc, zsocketSend_queued hne]
  refine ⟨⟨List.forall_mem_append.2 ⟨h.faithful.told, ?_⟩, ?_, h.faithful.nothing⟩, ?_⟩
  · rw [List.forall_mem_singleton]
    exact ⟨_, [], hcall, LuaValue.noConfusion⟩
  · simp only [step, hpair, if_true]
    rw [List.map_append, ← List.append_assoc, h.faithful.order, List.map_append]
  · simp only [step, hpair]
    rw [List.forall_mem_append, List.forall_mem_singleton]
    exact ⟨h.nonempty, hne⟩

/-- A frame that is not queued leaves the pair alone. -/
theorem inv_send_failed (h : w.Inv) (data : Frame) (flag errno : ℤ) :
    (w.step (.send data flag false errno)).Inv := by
  have hcall : zsocketSend (w.pair.send data flag false).1 errno = [.nil, .integer errno] := by
    show zsocketSend (-1) errno = _
    exact zsocketSend_nonpos (by decide) errno
  refine ⟨⟨List.forall_mem_append.2 ⟨h.faithful.told, ?_⟩, h.faithful.order, h.faithful.nothing⟩, h.nonempty⟩
  rw [List.forall_mem_singleton]
  exact hcall

/-- A call of `recv` that gets nothing. -/
theorem inv_recv_nothing (h : w.Inv) (hnone : w.pair.recvmsg fails = (-1, [], w.pair))
    (hserved : (!w.pair.queue.isEmpty && !fails) = false) : (w.step (.recv fails)).Inv := by
  have hstep : w.step (.recv fails) = { w with recvs := w.recvs ++ [⟨false, []⟩] } := by
    simp only [step, hnone, hserved, zsocketRecv_error]
  rw [hstep]
  refine ⟨⟨h.faithful.told, ?_, List.forall_mem_append.2 ⟨h.faithful.nothing, ?_⟩⟩, h.nonempty⟩
  · simp only [List.flatMap_append, List.flatMap_singleton, List.append_nil]
    exact h.faithful.order
  · rw [List.forall_mem_singleton]
    intro _
    rfl

theorem inv_recv (h : w.Inv) (fails : Bool) : (w.step (.recv fails)).Inv := by
  cases fails with
  | true =>
    refine inv_recv_nothing h ?_ (by rw [Bool.not_true, Bool.and_false])
    unfold ZmqPair.recvmsg
    cases w.pair.queue <;> rfl
  | false =>
    cases hqueue : w.pair.queue with
    | nil =>
      refine inv_recv_nothing h ?_ (by rw [hqueue]; rfl)
      unfold ZmqPair.recvmsg
      rw [hqueue]
    | cons msg queue =>
      have hne : msg ≠ [] := h.nonempty msg (by rw [hqueue]; exact List.mem_cons_self)
      have hstep : w.step (.recv false) = { w with
          pair := ⟨w.pair.pending, queue⟩
          recvs := w.recvs ++ [⟨true, [.string msg]⟩] } := by
        have hrecv : w.pair.recvmsg false = ((msg.length : ℤ), msg, ⟨w.pair.pending, queue⟩) := by
          unfold ZmqPair.recvmsg
          rw [hqueue]
        simp only [step, hrecv, hqueue, zsocketRecv_frame hne, List.isEmpty_cons, Bool.not_false,
          Bool.and_self]
      rw [hstep]
      refine ⟨⟨h.faithful.told, ?_, List.forall_mem_append.2 ⟨h.faithful.nothing, ?_⟩⟩,
        fun m hm => h.nonempty m ?_⟩
      · have horder := h.faithful.order
        rw [hqueue, List.cons_append, List.map_cons] at horder
        simp only [List.flatMap_append, List.flatMap_singleton, List.append_assoc, List.cons_append,
          List.nil_append]
        exact horder
      · rw [List.forall_mem_singleton]
        exact nofun
      · rw [hqueue]
        exact List.mem_cons_of_mem _ hm

/-- **An empty frame** is queued, and reported as a failure. -/
theorem not_told_empty (w : PairWorld) (flag errno : ℤ) :
    ¬ (w.step (.send [] flag true errno)).Faithful := by
  intro h
  have hcall : zsocketSend (w.pair.send [] flag true).1 errno = [.nil, .integer errno] := by
    rw [(send_pair w.pair [] flag).1]
    exact zsocketSend_nonpos (le_refl _) errno
  have htold := h.told ⟨true, errno, zsocketSend (w.pair.send [] flag true).1 errno⟩
    (List.mem_append_right _ List.mem_cons_self)
  rw [hcall] at htold
  obtain ⟨v, rest, heq, hne⟩ := htold
  rw [List.cons.injEq] at heq
  exact hne heq.1.symm

/-- **Frames survive the binding** exactly when none that is queued is empty. -/
theorem faithful_iff (es : List PairEvent) :
    zmqPair.Along Faithful PairWorld.init es ↔ ∀ e ∈ es, e.Nonempty := by
  have hruns : zmqPair.Runs PairWorld.init es :=
    (Machine.meets_iff_forall (K := fun _ => True)).2 fun _ _ => trivial
  rw [← Machine.meets_iff_forall (M := zmqPair) (s := PairWorld.init)]
  refine Machine.along_iff_meets (I := Inv) ?_ ?_ (fun _ h => h.faithful) inv_init hruns
  · intro w e hw _ he
    cases e with
    | send data flag queued errno =>
      cases queued with
      | true => exact inv_send hw (he rfl)
      | false => exact inv_send_failed hw data flag errno
    | recv fails => exact inv_recv hw fails
  · intro w e _ _ he
    cases e with
    | send data flag queued errno =>
      obtain ⟨rfl, rfl⟩ : queued = true ∧ data = [] := by simpa [PairEvent.Nonempty] using he
      exact not_told_empty w flag errno
    | recv fails => exact absurd trivial he

/-- An envelope: an empty frame and a body. The first `send` returns `nil`, and the first
`recv` nothing, although both frames arrive. -/
theorem faithful_not_envelope :
    let es : List PairEvent := [.send [] 2 true 0, .send [98] 0 true 0, .recv false, .recv false]
    ¬ zmqPair.Along Faithful PairWorld.init es ∧
      (zmqPair.exec PairWorld.init es).sends.map SendCall.results = [[.nil, .integer 0], [.integer 1]] ∧
      (zmqPair.exec PairWorld.init es).recvs.map RecvCall.results = [[], [.string [98]]] := by
  intro es
  refine ⟨?_, by decide, by decide⟩
  intro h
  exact not_told_empty PairWorld.init 2 0 h.2.head

end PairWorld

end Qsf
