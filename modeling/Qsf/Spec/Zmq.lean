import Qsf.Lib.Program
import Qsf.Spec.NodeRegistry

/-!
# Messages between nodes (`qsf_start.c`, `qsf_node.c`)

Every node has a DEALER socket, and the main thread has one ROUTER socket to which all
of them are connected. The three functions below are programs that call ZeroMQ: what a
call returns is decided by the sockets, and other threads run between two calls.

Of ZeroMQ: a ROUTER puts the identity of the sender in front of a message it receives, and
takes the first frame of a message it sends as the destination; a message is sent when its
last frame is.
-/

set_option autoImplicit false

namespace Qsf

/-- The bytes of a frame. -/
abbrev Frame := List UInt8

/-- The calls that leave the code of this repository. -/
inductive ZmqCall
  | send (data : Frame) (more : Bool)       -- `zmq_send`, `zmq_msg_send`
  | msgRecv (dontwait : Bool)               -- `zmq_msg_recv`
  | handler (name data : Frame)             -- the `msg_recv_handler`
  | abort                                   -- `qsf_abort`

/-- A call that sends returns the number of bytes or -1, a call that receives the frame or
nothing. Nothing comes after `qsf_abort`. -/
def ZmqCall.Reply : ZmqCall → Type
  | .send _ _ => ℤ
  | .msgRecv _ => Option Frame
  | .handler _ _ => ℤ
  | .abort => Empty

/-- Code that calls ZeroMQ. -/
abbrev Zmq := Program ZmqCall ZmqCall.Reply

def zmqSend (data : Frame) (more : Bool) : Zmq ℤ := Program.ask (ZmqCall.send data more)

/-- `zmq_msg_send`, of a frame that was received. -/
def zmqMsgSend (msg : Frame) (more : Bool) : Zmq ℤ := Program.ask (ZmqCall.send msg more)

def zmqMsgRecv (dontwait : Bool) : Zmq (Option Frame) := Program.ask (ZmqCall.msgRecv dontwait)

/-- `func(ud, name, len, data, size)`. -/
def msgRecvHandler (name data : Frame) : Zmq ℤ := Program.ask (ZmqCall.handler name data)

/-- `qsf_assert`, which is checked in every build. -/
def qsfAssert (expr : Bool) : Zmq Unit :=
  if expr then .done () else .call .abort nofun

/-! ## The router's thread -/

/-- `dispatch_message`. -/
def dispatchMessage : Zmq ℤ := do
  match ← zmqMsgRecv false with
  | none => return -1
  | some fromMsg =>           -- where does this message came from
    match ← zmqMsgRecv false with
    | none => return -1
    | some toMsg =>           -- where is this message going to
      match ← zmqMsgRecv false with
      | none => return -1
      | some msg =>           -- the message itself
        let bytes ← zmqMsgSend toMsg true
        if bytes < 0 then return bytes
        let bytes ← zmqMsgSend fromMsg true
        if bytes < 0 then return bytes
        zmqMsgSend msg false

/-! ## The threads of nodes -/

section

-- `assert` is compiled in, as in the debug configuration
variable (debug : Bool)

/-- `qsf_node_send`, and `node_send`, which returns 0 after it. -/
def qsfNodeSend (name data : Frame) : Zmq ℤ := do
  qsfAssert (!debug || (!name.isEmpty && !data.isEmpty))
  let r ← zmqSend name true
  qsfAssert (r = name.length)
  let r ← zmqSend data false
  qsfAssert (r = data.length)
  return 0

end

/-- `qsf_node_recv`. -/
def qsfNodeRecv (nowait : Bool) : Zmq ℤ := do
  match ← zmqMsgRecv nowait with
  | none => return 0
  | some name =>
    if name.isEmpty then return 0
    else
      qsfAssert (name.length < MAX_ID_LENGTH)
      match ← zmqMsgRecv nowait with
      | none => return 0
      | some data =>
        if data.isEmpty then return 0
        else
          let r ← msgRecvHandler name data
          return if 0 < r then r else 0

/-! ## The ROUTER socket -/

/-- A ROUTER in the middle of its messages; `ι` are its peers. -/
structure RouterSocket (ι : Type) where
  /-- The frames of the message being received that are still to come. -/
  receiving : List Frame
  /-- The destination of the message being sent, `some none` when there is none. -/
  target : Option (Option ι)
  /-- The frames of the message being sent. -/
  sending : List Frame

namespace RouterSocket

variable {ι : Type}

/-- Between two messages. -/
def idle : RouterSocket ι := ⟨[], none, []⟩

/-- Send a frame: what the call returns, and the message that goes out. `lookup` finds the
peer a message can be sent to. -/
def send (mandatory : Bool) (lookup : Frame → Option ι) (s : RouterSocket ι) (data : Frame)
    (more : Bool) :
    ℤ × RouterSocket ι × Option (ι × List Frame) :=
  match s.target with
  | none =>
    -- the destination; a message without anything else is ignored
    if !more then (data.length, s, none)
    else if mandatory && (lookup data).isNone then (-1, s, none)
    else (data.length, { s with target := some (lookup data) }, none)
  | some peer =>
    if more then (data.length, { s with sending := s.sending ++ [data] }, none)
    else (data.length, { s with target := none, sending := [] }, peer.map (·, s.sending ++ [data]))

variable {mandatory : Bool} {lookup : Frame → Option ι} {s : RouterSocket ι} {data : Frame}

theorem send_refused (h : s.target = none) (hm : (mandatory && (lookup data).isNone) = true) :
    s.send mandatory lookup data true = (-1, s, none) := by
  simp only [send, h, hm, Bool.not_true, Bool.false_eq_true, if_false, if_true]

theorem send_destination (h : s.target = none) (hm : ¬ (mandatory && (lookup data).isNone) = true) :
    s.send mandatory lookup data true = ((data.length : ℤ), ⟨s.receiving, some (lookup data), s.sending⟩, none) := by
  simp only [send, h, hm, Bool.not_true, Bool.false_eq_true, if_false]

theorem send_part {peer : Option ι} (h : s.target = some peer) :
    s.send mandatory lookup data true = ((data.length : ℤ), ⟨s.receiving, some peer, s.sending ++ [data]⟩, none) := by
  simp only [send, h, if_true]

theorem send_last {peer : Option ι} (h : s.target = some peer) :
    s.send mandatory lookup data false =
      ((data.length : ℤ), ⟨s.receiving, none, []⟩, peer.map (·, s.sending ++ [data])) := by
  simp only [send, h, Bool.false_eq_true, if_false]

end RouterSocket

end Qsf
