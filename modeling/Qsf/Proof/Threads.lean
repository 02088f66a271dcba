import Qsf.Spec.Routing

/-!
# What each thread does with its socket

The main thread and the threads of nodes see of the network only what their own calls
return. A `Contract` says what these calls promise, and what they ask for: that the frames
sent are those of the message in hand.

* `dispatchMessage_safe`: `dispatch_message` sends on what it received, and ends between
  two messages.
* `qsfNodeSend_safe`: the frames of a send are its destination and its data.
* `qsfNodeRecv_safe`: the handler gets the sender's name and the data of one message.
-/

set_option autoImplicit false

namespace Qsf

/-! ## The router -/

/-- What the main thread knows of its socket. `dead` is set when a call failed because the
context is terminated: all later calls fail. -/
structure RouterView where
  receiving : List Frame
  /-- The destination of a message was sent. -/
  target : Bool
  sending : List Frame
  /-- The message that was received and not sent on. -/
  held : Option SendRecord
  dead : Bool

namespace RouterView

/-- Between two messages. -/
def Idle (v : RouterView) : Prop := v.receiving = [] ∧ v.target = false ∧ v.sending = []

/-- The frame of the message in hand that comes next on its way out, and whether another
follows. -/
def Next (v : RouterView) (m : SendRecord) (data : Frame) (more : Bool) : Prop :=
  (v.target = false ∧ v.sending = [] ∧ data = m.dest ∧ more = true) ∨
  (v.target = true ∧ v.sending = [] ∧ data = m.senderName ∧ more = true) ∨
  (v.target = true ∧ v.sending = [m.senderName] ∧ data = m.data ∧ more = false)

/-- A frame was sent. -/
def sent (v : RouterView) (data : Frame) (more : Bool) : RouterView :=
  if v.target = false then { v with target := true }
  else if more then { v with sending := v.sending ++ [data] }
  else { v with target := false, sending := [], held := none }

/-- What a send may return. -/
def Sent (v : RouterView) (data : Frame) (more : Bool) (r : ℤ) (v' : RouterView) : Prop :=
  (r = -1 ∧ v' = { v with dead := true }) ∨ (v.dead = false ∧ r = data.length ∧ v' = v.sent data more)

/-- What a receive may bring: the next frame of a message, nothing, or the first frame of a
message, which is the identity of its sender. -/
def Received (v : RouterView) (r : Option Frame) (v' : RouterView) : Prop :=
  (r = none ∧ v' = { v with dead := true }) ∨
  (v.dead = false ∧ ∃ part rest, v.receiving = part :: rest ∧ r = some part ∧
    v' = { v with receiving := rest }) ∨
  (v.dead = false ∧ v.receiving = [] ∧ r = none ∧ v' = v) ∨
  (v.dead = false ∧ v.receiving = [] ∧ ∃ m : SendRecord, r = some m.senderName ∧
    v' = { v with receiving := [m.dest, m.data], held := some m })

end RouterView

/-- The calls of the main thread. -/
def routerContract : Program.Contract ZmqCall ZmqCall.Reply RouterView where
  pre
    | .send data more, v => v.dead = true ∨ ∃ m, v.held = some m ∧ v.Next m data more
    | .msgRecv _, v => v.target = false
    | .handler _ _, _ => False
    | .abort, _ => False
  post
    | .send data more, v, r, v' => v.Sent data more r v'
    | .msgRecv _, v, r, v' => v.Received r v'
    | .handler _ _, _, _, _ => False
    | .abort, _, _, _ => False

/-- Where a call of `dispatch_message` may end. -/
def RouterView.Ended (r : ℤ) (v : RouterView) : Prop := r < 0 ∨ v.Idle

/-- A receive in the middle of a message. -/
theorem safe_part {v : RouterView} {k : Option Frame → Zmq ℤ} {dontwait : Bool} {part : Frame}
    {rest : List Frame} (hv : v.receiving = part :: rest) (ht : v.target = false)
    (hnone : ∀ v', (k none).Safe routerContract RouterView.Ended v')
    (hsome : (k (some part)).Safe routerContract RouterView.Ended { v with receiving := rest }) :
    (zmqMsgRecv dontwait >>= k).Safe routerContract RouterView.Ended v := by
  refine ⟨ht, ?_⟩
  rintro r v' (⟨rfl, rfl⟩ | ⟨-, p, ps, hp, rfl, rfl⟩ | ⟨-, hnil, -⟩ | ⟨-, hnil, -⟩)
  · exact hnone _
  · rw [hv] at hp
    cases hp
    exact hsome
  · rw [hv] at hnil
    cases hnil
  · rw [hv] at hnil
    cases hnil

/-- A send of the next frame of the message in hand. -/
theorem safe_sent {v : RouterView} {k : ℤ → Zmq ℤ} {data : Frame} {more : Bool} {m : SendRecord}
    (hm : v.held = some m) (hnext : v.Next m data more)
    (hfail : ∀ v', (k (-1)).Safe routerContract RouterView.Ended v')
    (hsent : (k data.length).Safe routerContract RouterView.Ended (v.sent data more)) :
    (zmqMsgSend data more >>= k).Safe routerContract RouterView.Ended v := by
  refine ⟨.inr ⟨m, hm, hnext⟩, ?_⟩
  rintro r v' (⟨rfl, rfl⟩ | ⟨-, rfl, rfl⟩)
  · exact hfail _
  · exact hsent

/-- **`dispatch_message`** sends on the message it received, and nothing else. -/
theorem dispatchMessage_safe {v : RouterView} (hv : v.Idle) :
    dispatchMessage.Safe routerContract RouterView.Ended v := by
  obtain ⟨hr, ht, hs⟩ := hv
  have hfail : ∀ v', (Program.done (-1) : Zmq ℤ).Safe routerContract RouterView.Ended v' :=
    fun _ => .inl (by decide)
  refine ⟨ht, ?_⟩
  rintro r v' (⟨rfl, rfl⟩ | ⟨-, p, ps, hp, -⟩ | ⟨-, -, rfl, rfl⟩ | ⟨-, -, m, rfl, rfl⟩)
  · exact hfail _
  · rw [hr] at hp
    cases hp
  · exact hfail _
  refine safe_part rfl ht hfail ?_
  refine safe_part rfl ht hfail ?_
  refine safe_sent rfl (.inl ⟨ht, hs, rfl, rfl⟩) hfail ?_
  rw [if_neg (by omega), RouterView.sent, if_pos ht]
  refine safe_sent rfl (.inr (.inl ⟨rfl, hs, rfl, rfl⟩)) hfail ?_
  rw [if_neg (by omega), RouterView.sent, if_neg (by simp), if_pos rfl]
  refine ⟨.inr ⟨m, rfl, .inr (.inr ⟨rfl, ?_, rfl, rfl⟩)⟩, ?_⟩
  · show v.sending ++ [m.senderName] = [m.senderName]
    rw [hs, List.nil_append]
  rintro r v' (⟨rfl, rfl⟩ | ⟨-, rfl, rfl⟩)
  · exact hfail _
  · exact .inr ⟨rfl, rfl, rfl⟩

/-! ## The nodes -/

/-- What the thread of a node knows of its socket. -/
structure NodeView where
  receiving : List Frame
  sending : List Frame
  /-- The send that is not complete. -/
  pending : Option SendRecord
  /-- The message that was received and not handed over. -/
  held : Option SendRecord
  dead : Bool

namespace NodeView

/-- The frame of the send that comes next, and whether another follows. -/
def Next (v : NodeView) (m : SendRecord) (data : Frame) (more : Bool) : Prop :=
  (v.sending = [] ∧ data = m.dest ∧ more = true) ∨ (v.sending = [m.dest] ∧ data = m.data ∧ more = false)

/-- A frame was sent. -/
def sent (v : NodeView) (data : Frame) (more : Bool) : NodeView :=
  if more then { v with sending := v.sending ++ [data] } else { v with sending := [], pending := none }

/-- What a send may return. -/
def Sent (v : NodeView) (data : Frame) (more : Bool) (r : ℤ) (v' : NodeView) : Prop :=
  (r = -1 ∧ v' = { v with dead := true }) ∨ (v.dead = false ∧ r = data.length ∧ v' = v.sent data more)

/-- What a receive may bring. The first frame of a message is the name of a node. -/
def Received (v : NodeView) (r : Option Frame) (v' : NodeView) : Prop :=
  (r = none ∧ v' = { v with dead := true }) ∨
  (v.dead = false ∧ ∃ part rest, v.receiving = part :: rest ∧ r = some part ∧
    v' = { v with receiving := rest }) ∨
  (v.dead = false ∧ v.receiving = [] ∧ r = none ∧ v' = v) ∨
  (v.dead = false ∧ v.receiving = [] ∧ ∃ m : SendRecord, m.senderName ≠ [] ∧ r = some m.senderName ∧
    v' = { v with receiving := [m.data], held := some m })

/-- Between two calls of the node. -/
def Idle (v : NodeView) : Prop :=
  v.pending = none ∧ (v.dead = true ∨ v.receiving = [] ∧ v.sending = [])

end NodeView

/-- The calls of the thread of a node. -/
def nodeContract : Program.Contract ZmqCall ZmqCall.Reply NodeView where
  pre
    | .send data more, v => v.dead = true ∨ ∃ m, v.pending = some m ∧ v.Next m data more
    | .msgRecv _, _ => True
    | .handler name data, v => ∃ m, v.held = some m ∧ name = m.senderName ∧ data = m.data
    | .abort, _ => True
  post
    | .send data more, v, r, v' => v.Sent data more r v'
    | .msgRecv _, v, r, v' => v.Received r v'
    | .handler _ _, v, _, v' => v' = { v with held := none }
    | .abort, _, _, _ => False

/-- The functions of `qsf_node.c` end between two calls, whatever they return. -/
def NodeView.Ended (_ : ℤ) (v : NodeView) : Prop := v.Idle

theorem qsfAssert_safe {v : NodeView} {expr : Bool} {k : Unit → Zmq ℤ}
    (h : expr = true → (k ()).Safe nodeContract NodeView.Ended v) :
    (qsfAssert expr >>= k).Safe nodeContract NodeView.Ended v := by
  unfold qsfAssert
  split
  · rename_i he
    exact h he
  · exact ⟨trivial, fun r => nomatch r⟩

/-- **`qsf_node_send`** sends the destination and the data. -/
theorem qsfNodeSend_safe (debug : Bool) {v : NodeView} {m : SendRecord} (hm : v.pending = some m)
    (hv : v.dead = true ∨ v.receiving = [] ∧ v.sending = []) :
    (qsfNodeSend debug m.dest m.data).Safe nodeContract NodeView.Ended v := by
  refine qsfAssert_safe fun _ => ⟨?_, ?_⟩
  · rcases hv with hd | ⟨-, hs⟩
    · exact .inl hd
    · exact .inr ⟨m, hm, .inl ⟨hs, rfl, rfl⟩⟩
  rintro r v' (⟨rfl, rfl⟩ | ⟨hd, rfl, rfl⟩)
  · -- the context is terminated: the process aborts
    apply qsfAssert_safe
    intro h
    simp at h
  refine qsfAssert_safe fun _ => ⟨.inr ⟨m, hm, .inr ⟨?_, rfl, rfl⟩⟩, ?_⟩
  · obtain ⟨-, hs⟩ := hv.resolve_left (by rw [hd]; decide)
    show v.sending ++ [m.dest] = [m.dest]
    rw [hs, List.nil_append]
  rintro r v' (⟨rfl, rfl⟩ | ⟨hd', rfl, rfl⟩)
  · apply qsfAssert_safe
    intro h
    simp at h
  · refine qsfAssert_safe fun _ => ⟨rfl, .inr ⟨?_, rfl⟩⟩
    exact (hv.resolve_left (by rw [hd]; decide)).1

/-- **`qsf_node_recv`** hands over one message, if at all. -/
theorem qsfNodeRecv_safe (nowait : Bool) {v : NodeView} (hv : v.Idle) :
    (qsfNodeRecv nowait).Safe nodeContract NodeView.Ended v := by
  obtain ⟨hp, hv⟩ := hv
  refine ⟨trivial, ?_⟩
  rintro r v' (⟨rfl, rfl⟩ | ⟨hd, p, ps, hr, -⟩ | ⟨-, -, rfl, rfl⟩ | ⟨hd, -, m, hname, rfl, rfl⟩)
  · exact ⟨hp, .inl rfl⟩
  · have hr' := (hv.resolve_left (by rw [hd]; decide)).1
    rw [hr] at hr'
    cases hr'
  · exact ⟨hp, hv⟩
  have hs := (hv.resolve_left (by rw [hd]; decide)).2
  -- the name is not empty, so the second frame is received too
  show Program.Safe nodeContract NodeView.Ended (if m.senderName.isEmpty then _ else _) _
  rw [if_neg (by simpa using hname)]
  refine qsfAssert_safe fun _ => ⟨trivial, ?_⟩
  rintro r v' (⟨rfl, rfl⟩ | ⟨-, p, ps, hr, rfl, rfl⟩ | ⟨-, hr, -⟩ | ⟨-, hr, -⟩)
  · exact ⟨hp, .inl rfl⟩
  · cases hr
    show Program.Safe nodeContract NodeView.Ended (if m.data.isEmpty then _ else _) _
    split
    · exact ⟨hp, .inr ⟨rfl, hs⟩⟩
    · refine ⟨⟨m, rfl, rfl, rfl⟩, ?_⟩
      rintro r v' rfl
      exact ⟨hp, .inr ⟨rfl, hs⟩⟩
  · cases hr
  · cases hr

end Qsf
