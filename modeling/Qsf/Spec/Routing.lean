import Qsf.Lib.Machine
import Qsf.Spec.Zmq

/-!
# The network of nodes

Nodes with their DEALER sockets, the main thread with the ROUTER, and the messages between
them. One event is one call to ZeroMQ by one thread, so the threads interleave between
the frames of a message.

Of ZeroMQ: a message enters the queue to the router when its last frame is sent, and is
received as a whole; each queue keeps its order; the router finds a destination among the
sockets that are connected, and drops a message (`router_mandatory` is 0) when there is
none or its queue is full. What a closed socket had in its queues may be lost.

The records of sends and of what was handed over are no part of the code: no step depends
on them.
-/

set_option autoImplicit false

namespace Qsf

/-- A call of `qsf_node_send`; `seq` numbers all these calls in their order. -/
structure SendRecord where
  sender : ℕ
  senderName : Frame
  seq : ℕ
  dest : Frame
  data : Frame
  deriving DecidableEq

/-- A message in a queue, and the send it comes from. -/
structure Message where
  frames : List Frame
  record : SendRecord

/-- What a call of the `msg_recv_handler` got, and the send the message came from. -/
structure Handed where
  receiver : ℕ
  name : Frame
  data : Frame
  record : SendRecord
  deriving DecidableEq

/-- The connection of a DEALER with the router. -/
inductive Pipe
  | connecting | attached | gone
  deriving DecidableEq

/-- A node with its DEALER socket. -/
structure Dealer where
  name : Frame
  isOpen : Bool
  pipe : Pipe
  /-- The function of `qsf_node.c` that is running. -/
  thread : Option (Zmq ℤ)
  /-- The frames of the message being sent. -/
  sending : List Frame
  outbox : List Message
  inbox : List Message
  /-- The frames of the message being received that are still to come. -/
  receiving : List Frame
  /-- The last send of the node, and the one its last message came from. -/
  record : SendRecord
  current : SendRecord

structure Network where
  dealers : ℕ → Dealer
  count : ℕ
  router : RouterSocket ℕ
  /-- The main thread, unless its loop broke. -/
  thread : Option (Zmq ℤ)
  /-- The send that the router's last message came from. -/
  current : SendRecord
  /-- `zmq_ctx_term` was called. -/
  terminated : Bool
  /-- `qsf_abort` was called. -/
  aborted : Bool
  sent : List SendRecord
  handed : List Handed

def SendRecord.zero : SendRecord := ⟨0, [], 0, [], []⟩

namespace Dealer

/-- `qsf_create_dealer`. -/
def create (name : Frame) : Dealer :=
  ⟨name, true, .connecting, none, [], [], [], [], .zero, .zero⟩

/-- `zmq_send` on the DEALER. -/
def zmqSend (d : Dealer) (terminated : Bool) (data : Frame) (more : Bool) : ℤ × Dealer :=
  if terminated then (-1, d)
  else if more then (data.length, { d with sending := d.sending ++ [data] })
  else (data.length, { d with sending := [], outbox := d.outbox ++ [⟨d.sending ++ [data], d.record⟩] })

/-- `zmq_msg_recv` on the DEALER. With `ready` false it gives up before a message comes. -/
def msgRecv (d : Dealer) (terminated ready : Bool) : Option Frame × Dealer :=
  if terminated then (none, d)
  else match d.receiving with
    | part :: rest => (some part, { d with receiving := rest })
    | [] =>
      if !ready then (none, d)
      else match d.inbox with
        | [] => (none, d)
        | m :: ms =>
          (some (m.frames.headD []), { d with receiving := m.frames.tail, inbox := ms, current := m.record })

/-- The thread goes on, until its function returns. -/
def resume (d : Dealer) (p : Zmq ℤ) : Dealer :=
  match p with
  | .done _ => { d with thread := none }
  | .call c k => { d with thread := some (.call c k) }

end Dealer

namespace Network

def init : Network where
  dealers := fun _ => .create []
  count := 0
  router := .idle
  thread := some dispatchMessage
  current := .zero
  terminated := false
  aborted := false
  sent := []
  handed := []

def setDealer (w : Network) (i : ℕ) (d : Dealer) : Network :=
  { w with dealers := Function.update w.dealers i d }

/-! ## The router -/

/-- The peer that a destination stands for, unless its queue is full. -/
def lookup (w : Network) (full : Bool) (name : Frame) : Option ℕ :=
  if full then none
  else (List.range w.count).find? fun i => (w.dealers i).pipe = .attached ∧ (w.dealers i).name = name

/-- A complete message goes into the queue of its destination. -/
def deliver (w : Network) : Option (ℕ × List Frame) → Network
  | none => w
  | some (j, frames) =>
    w.setDealer j { w.dealers j with inbox := (w.dealers j).inbox ++ [⟨frames, w.current⟩] }

/-- `zmq_msg_send` on the ROUTER. -/
def routerSend (w : Network) (full : Bool) (data : Frame) (more : Bool) : ℤ × Network :=
  if w.terminated then (-1, w)
  else
    let out := w.router.send false (w.lookup full) data more
    (out.1, { w with router := out.2.1 }.deliver out.2.2)

/-- `zmq_msg_recv` on the ROUTER, which takes its next message from the socket `source`, or
is interrupted before one comes. -/
def routerRecv (w : Network) (source : Option ℕ) : Option Frame × Network :=
  if w.terminated then (none, w)
  else match w.router.receiving with
    | part :: rest => (some part, { w with router := { w.router with receiving := rest } })
    | [] =>
      match source with
      | none => (none, w)
      | some i =>
        match (w.dealers i).outbox with
        | [] => (none, w)
        | m :: ms =>
          (some (w.dealers i).name,
            { w.setDealer i { w.dealers i with outbox := ms } with
              router := { w.router with receiving := m.frames }
              current := m.record })

/-- The loop of `qsf_start`: another `dispatch_message`, until one fails. -/
def resumeRouter (w : Network) (p : Zmq ℤ) : Network :=
  match p with
  | .done r => { w with thread := if r < 0 then none else some dispatchMessage }
  | .call c k => { w with thread := some (.call c k) }

/-- The next call of the main thread. -/
def routerStep (w : Network) (source : Option ℕ) (full : Bool) : Network :=
  match w.thread with
  | some (.call (.send data more) k) =>
    (w.routerSend full data more).2.resumeRouter (k (w.routerSend full data more).1)
  | some (.call (.msgRecv _) k) => (w.routerRecv source).2.resumeRouter (k (w.routerRecv source).1)
  | _ => w

/-! ## The nodes -/

/-- The next call of the thread of node `i`; `ret` is what a handler returns. -/
def nodeStep (w : Network) (i : ℕ) (ready : Bool) (ret : ℤ) : Network :=
  match (w.dealers i).thread with
  | some (.call (.send data more) k) =>
    let out := (w.dealers i).zmqSend w.terminated data more
    w.setDealer i (out.2.resume (k out.1))
  | some (.call (.msgRecv _) k) =>
    let out := (w.dealers i).msgRecv w.terminated ready
    w.setDealer i (out.2.resume (k out.1))
  | some (.call (.handler name data) k) =>
    { w.setDealer i ((w.dealers i).resume (k ret)) with
      handed := w.handed ++ [⟨i, name, data, (w.dealers i).current⟩] }
  | some (.call .abort _) => { w with aborted := true }
  | _ => w

/-- A node calls `qsf_node_send`. -/
def startSend (w : Network) (debug : Bool) (i : ℕ) (name data : Frame) : Network :=
  let record : SendRecord := ⟨i, (w.dealers i).name, w.sent.length, name, data⟩
  { w.setDealer i ({ w.dealers i with record := record }.resume (qsfNodeSend debug name data)) with
    sent := w.sent ++ [record] }

/-- A node calls `qsf_node_recv`. -/
def startRecv (w : Network) (i : ℕ) (nowait : Bool) : Network :=
  w.setDealer i ((w.dealers i).resume (qsfNodeRecv nowait))

/-- The node can make a call: it has not exited, and makes none. -/
def Ready (w : Network) (i : ℕ) : Prop :=
  i < w.count ∧ (w.dealers i).isOpen = true ∧ (w.dealers i).thread = none

instance (w : Network) (i : ℕ) : Decidable (w.Ready i) := inferInstanceAs (Decidable (_ ∧ _ ∧ _))

end Network

inductive RoutingEvent
  | create (name : CString)
  | exit (i : ℕ)
  | attach (i : ℕ)
  | detach (i : ℕ)
  | send (i : ℕ) (name data : Frame)
  | recv (i : ℕ) (nowait : Bool)
  | node (i : ℕ) (ready : Bool) (ret : ℤ)
  | route (source : Option ℕ) (full : Bool)
  | terminate

namespace Network

/-- Names are those that `qsf_create_node` lets through and ZeroMQ takes for an identity, and
no two nodes that run have the same. The router knows one socket of a name at a time. -/
def enabled (w : Network) : RoutingEvent → Prop
  | .create name => name.bytes ≠ [] ∧ name.length < MAX_ID_LENGTH ∧
    ∀ i < w.count, (w.dealers i).isOpen = true → (w.dealers i).name ≠ name.bytes
  | .exit i => w.Ready i
  | .attach i => i < w.count ∧ (w.dealers i).pipe = .connecting ∧
    ∀ k < w.count, (w.dealers k).pipe = .attached → (w.dealers k).name ≠ (w.dealers i).name
  | .detach i => i < w.count ∧ (w.dealers i).isOpen = false
  | .send i _ _ => w.aborted = false ∧ w.Ready i
  | .recv i _ => w.aborted = false ∧ w.Ready i
  | .node i _ _ => w.aborted = false ∧ i < w.count
  | .route source _ => w.aborted = false ∧
    ∀ i, source = some i → i < w.count ∧ (w.dealers i).pipe = .attached
  | .terminate => True

instance (w : Network) : ∀ e : RoutingEvent, Decidable (w.enabled e)
  | .create _ => inferInstanceAs (Decidable (_ ∧ _ ∧ _))
  | .exit i => inferInstanceAs (Decidable (w.Ready i))
  | .attach _ => inferInstanceAs (Decidable (_ ∧ _ ∧ _))
  | .detach _ => inferInstanceAs (Decidable (_ ∧ _))
  | .send _ _ _ => inferInstanceAs (Decidable (_ ∧ _))
  | .recv _ _ => inferInstanceAs (Decidable (_ ∧ _))
  | .node _ _ _ => inferInstanceAs (Decidable (_ ∧ _))
  | .route none _ => decidable_of_iff (w.aborted = false) (by simp [enabled])
  | .route (some i) _ =>
    decidable_of_iff (w.aborted = false ∧ i < w.count ∧ (w.dealers i).pipe = .attached) (by simp [enabled])
  | .terminate => isTrue trivial

def step (debug : Bool) (w : Network) : RoutingEvent → Network
  | .create name => { w.setDealer w.count (.create name.bytes) with count := w.count + 1 }
  | .exit i => w.setDealer i { w.dealers i with isOpen := false }
  | .attach i => w.setDealer i { w.dealers i with pipe := .attached }
  | .detach i => w.setDealer i { w.dealers i with pipe := .gone, outbox := [] }
  | .send i name data => w.startSend debug i name data
  | .recv i nowait => w.startRecv i nowait
  | .node i ready ret => w.nodeStep i ready ret
  | .route source full => w.routerStep source full
  | .terminate => { w with terminated := true }

end Network

/-- The nodes, the router and what is between them. -/
def routing (debug : Bool) : Machine Network RoutingEvent where
  init w := w = Network.init
  enabled := Network.enabled
  step := Network.step debug

instance (debug : Bool) (w : Network) (e : RoutingEvent) : Decidable ((routing debug).enabled w e) :=
  inferInstanceAs (Decidable (w.enabled e))

end Qsf
