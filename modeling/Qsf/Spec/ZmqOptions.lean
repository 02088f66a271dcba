import Qsf.Spec.Bytes

/-!
# Options of ZeroMQ sockets

Each option is a cell of the socket. `zmq_setsockopt` fails unless the number of bytes is
one for the cell, and copies the bytes that are at the given address; `zmq_getsockopt` fails
unless the buffer has a size for the cell, and copies the bytes into it. Only the options
that the program sets and reads are here.

That ZeroMQ also refuses some numbers is left out: what a setter does not accept is not
looked at any further.
-/

set_option autoImplicit false

namespace Qsf

inductive ZmqOption
  | sndhwm
  | rcvhwm
  | sndbuf
  | rcvbuf
  | sndtimeo
  | rcvtimeo
  | rate
  | recoveryIvl
  | reconnectIvl
  | reconnectIvlMax
  | backlog
  | linger
  | immediate
  | tcpKeepalive
  | tcpKeepaliveIdle
  | tcpKeepaliveCnt
  | tcpKeepaliveIntvl
  | multicastHops
  | ipv6
  | maxmsgsize
  | identity
  | plainUsername
  | plainPassword
  | curvePublickey
  | curveSecretkey
  | curveServerkey
  deriving DecidableEq

/-- What a cell holds. -/
inductive OptionKind
  | int         -- four bytes
  | int64       -- eight bytes
  | identity    -- 1 to 255 bytes
  | text        -- the same, read with a NUL behind them
  | key         -- 32 bytes, or the 40 characters that stand for them

def ZmqOption.kind : ZmqOption → OptionKind
  | .maxmsgsize => .int64
  | .identity => .identity
  | .plainUsername | .plainPassword => .text
  | .curvePublickey | .curveSecretkey | .curveServerkey => .key
  | _ => .int

/-- The sizes that `zmq_setsockopt` takes. -/
def OptionKind.Sets (n : ℕ) : OptionKind → Prop
  | .int => n = 4
  | .int64 => n = 8
  | .identity => 1 ≤ n ∧ n ≤ 255
  | .text => 1 ≤ n ∧ n ≤ 255
  | .key => n = 32 ∨ n = 40

instance (n : ℕ) (k : OptionKind) : Decidable (k.Sets n) := by
  cases k <;> unfold OptionKind.Sets <;> infer_instance

/-- The cells of a socket. -/
abbrev ZmqOptions := ZmqOption → List UInt8

/-- `zmq_setsockopt`, with the bytes at the address it is given; `none` stands for -1. -/
def zmqSetsockopt (cells : ZmqOptions) (opt : ZmqOption) (optval : List UInt8) : Option ZmqOptions :=
  if opt.kind.Sets optval.length then some (Function.update cells opt optval) else none

/-- `zmq_getsockopt` with a buffer of `optlen` bytes: the bytes that it writes there. A key is
read in the form that its buffer has the size of; `z85` is the other form. -/
def zmqGetsockopt (z85 : List UInt8 → List UInt8) (cells : ZmqOptions) (opt : ZmqOption)
    (optlen : ℕ) :
    Option (List UInt8) :=
  let cell := cells opt
  match opt.kind with
  | .int => if optlen = 4 then some cell else none
  | .int64 => if optlen = 8 then some cell else none
  | .identity => if cell.length ≤ optlen then some cell else none
  | .text => if cell.length + 1 ≤ optlen then some (cell ++ [0]) else none
  | .key => if optlen = 32 then some cell else if optlen = 41 then some (z85 cell) else none

end Qsf
