import Qsf.Lib.Machine
import Qsf.Spec.Lua
import Qsf.Spec.Zmq

/-!
# Frames in the Lua binding of ZeroMQ (`zsocket_send` and `zsocket_recv` in `lualib/lua_zmq.c`)

Of ZeroMQ: `zmq_send` returns the number of bytes it queued or -1, `zmq_recvmsg` the size of
the frame or -1; frames arrive in order and unchanged, and those of one message together.
Whether a call fails is decided by the environment, and so is what `zmq_errno` returns.
-/

set_option autoImplicit false

namespace Qsf

/-- The flag has `ZMQ_SNDMORE`. -/
def sndmore (flag : ℤ) : Bool := flag / 2 % 2 = 1

/-- A connected pair of sockets, from the sender to the receiver. -/
structure ZmqPair where
  pending : List Frame      -- of a message that is not complete
  queue : List Frame

namespace ZmqPair

/-- `zmq_send`. -/
def send (p : ZmqPair) (data : Frame) (flag : ℤ) (queued : Bool) : ℤ × ZmqPair :=
  if !queued then (-1, p)
  else if sndmore flag then (data.length, { p with pending := p.pending ++ [data] })
  else (data.length, ⟨[], p.queue ++ p.pending ++ [data]⟩)

/-- `zmq_recvmsg`: the frame as well. -/
def recvmsg (p : ZmqPair) (fails : Bool) : ℤ × Frame × ZmqPair :=
  match p.queue, fails with
  | msg :: queue, false => (msg.length, msg, { p with queue := queue })
  | _, _ => (-1, [], p)

end ZmqPair

/-- `zsocket_send`: what it returns to Lua, after `zmq_send` returned `rc`. -/
def zsocketSend (rc errno : ℤ) : List LuaValue :=
  if rc > 0 then [.integer rc] else [.nil, .integer errno]

/-- `zsocket_recv`: what it returns to Lua, after `zmq_recvmsg` returned `rc`. -/
def zsocketRecv (rc : ℤ) (msg : Frame) : List LuaValue := if rc > 0 then [.string msg] else []

/-! ## Scripts at both ends -/

/-- A call of `sock:send`. -/
structure SendCall where
  queued : Bool
  errno : ℤ
  results : List LuaValue

/-- A call of `sock:recv`. -/
structure RecvCall where
  served : Bool             -- a frame was there, and no error
  results : List LuaValue

/-- The pair, and a record of the calls, which only the theorems read. -/
structure PairWorld where
  pair : ZmqPair
  sent : List Frame         -- frames that were queued
  sends : List SendCall
  recvs : List RecvCall

inductive PairEvent
  | send (data : Frame) (flag : ℤ) (queued : Bool) (errno : ℤ)
  | recv (fails : Bool)

namespace PairWorld

def init : PairWorld := ⟨⟨[], []⟩, [], [], []⟩

def step (w : PairWorld) : PairEvent → PairWorld
  | .send data flag queued errno =>
    let (rc, pair) := w.pair.send data flag queued
    { w with
      pair := pair
      sent := if queued then w.sent ++ [data] else w.sent
      sends := w.sends ++ [⟨queued, errno, zsocketSend rc errno⟩] }
  | .recv fails =>
    let (rc, msg, pair) := w.pair.recvmsg fails
    { w with
      pair := pair
      recvs := w.recvs ++ [⟨!w.pair.queue.isEmpty && !fails, zsocketRecv rc msg⟩] }

end PairWorld

/-- One script sends, another one receives, in any order. -/
def zmqPair : Machine PairWorld PairEvent where
  init w := w = PairWorld.init
  enabled _ _ := True
  step := PairWorld.step

end Qsf
