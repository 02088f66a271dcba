import Qsf.Spec.Zmq

/-!
# The loop of the main thread (`qsf_start.c`)

`qsf_start` calls `dispatch_message` until it fails. Here the router is alone with the
messages that arrive, from whatever sockets are connected to it: nodes send two parts, a
script with a socket of its own sends as many as it likes.
-/

set_option autoImplicit false

namespace Qsf

/-- A message in front of the router: the identity of its sender, and its parts. -/
structure Incoming where
  identity : Frame
  parts : List Frame
  nonempty : parts ≠ []

/-- The router, the messages that are still to come, and those it sent to a peer. -/
structure RouterRun (ι : Type) where
  incoming : List Incoming
  socket : RouterSocket ι
  delivered : List (ι × List Frame)

namespace RouterRun

variable {ι : Type}

/-- Before the first call. -/
def start (msgs : List Incoming) : RouterRun ι := ⟨msgs, .idle, []⟩

/-- The next frame, of the message being received or of the next one; `none` when the
call waits for ever. -/
def recv (s : RouterRun ι) : Option (Frame × RouterRun ι) :=
  match s.socket.receiving, s.incoming with
  | part :: rest, _ => some (part, { s with socket := { s.socket with receiving := rest } })
  | [], m :: ms => some (m.identity, { s with incoming := ms, socket := { s.socket with receiving := m.parts } })
  | [], [] => none

-- `router_mandatory`, and the peer that a destination stands for
variable (mandatory : Bool) (lookup : Frame → Option ι)

/-- What ZeroMQ answers. -/
def answer : (c : ZmqCall) → RouterRun ι → Option (c.Reply × RouterRun ι)
  | .send data more, s =>
    let out := s.socket.send mandatory lookup data more
    some (out.1, { s with socket := out.2.1, delivered := s.delivered ++ out.2.2.toList })
  | .msgRecv _, s => s.recv.map fun fs => (some fs.1, fs.2)
  | .handler _ _, _ => none
  | .abort, _ => none

/-- `n` rounds of the loop of `qsf_start`; `none` when the loop broke, or waits. -/
def qsfStartLoop : ℕ → RouterRun ι → Option (RouterRun ι)
  | 0, s => some s
  | n + 1, s =>
    match dispatchMessage.run (answer mandatory lookup) s with
    | none => none
    | some (r, s) => if r < 0 then none else qsfStartLoop n s

/-- The loop of `qsf_start` while nodes come and go: `peers k` are those there when round
`k` sends its destination frame. The state after so many rounds. -/
def qsfStartRounds (peers : ℕ → Frame → Option ι) : ℕ → RouterRun ι → Option (RouterRun ι)
  | 0, s => some s
  | n + 1, s => (qsfStartRounds peers n s).bind (qsfStartLoop mandatory (peers n) 1)

end RouterRun

/-! ## Messages of nodes -/

/-- A message sent by `qsf_node_send`. -/
structure NodeSend where
  sender : Frame
  destination : Frame
  data : Frame

/-- Such a message in front of the router. -/
def NodeSend.incoming (m : NodeSend) :
    Incoming := ⟨m.sender, [m.destination, m.data], List.cons_ne_nil _ _⟩

/-- What should go out for messages sent while nodes come and go: each to its destination,
if that is there in the round of the message. -/
def forwarded {ι : Type} (peers : ℕ → Frame → Option ι) (sends : List NodeSend) :
    List (ι × List Frame) :=
  sends.zipIdx.filterMap fun mk => (peers mk.2 mk.1.destination).map (·, [mk.1.sender, mk.1.data])

end Qsf
