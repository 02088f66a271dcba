import Qsf.Spec.NodeLife
import Qsf.Spec.NodeRegistry
import Qsf.Spec.ZmqOptions

/-!
# The record of a node, as its thread reads it

`create_from_node_list` fills three arrays that lie next to each other, and the thread of
the node reads each as a C string: the name in `init_node`, for the identity of the dealer,
path and arguments in `node_thread_callback`.
-/

set_option autoImplicit false

namespace Qsf

namespace QsfNode

/-- `qsf_node_t`, from `name` to the end. -/
def memory (s : QsfNode) (tag : UInt32) :
    List UInt8 := s.name ++ s.path ++ s.args ++ leBytes 4 tag.toNat

/-- `s->name`. -/
def readName (s : QsfNode) (tag : UInt32) : Option (List UInt8) := readCString (s.memory tag) 0

/-- `s->path`. -/
def readPath (s : QsfNode) (tag : UInt32) : Option (List UInt8) :=
  readCString (s.memory tag) MAX_ID_LENGTH

/-- `s->args`. -/
def readArgs (s : QsfNode) (tag : UInt32) : Option (List UInt8) :=
  readCString (s.memory tag) (MAX_ID_LENGTH + MAX_PATH)

end QsfNode

/-! ## The thread of a node -/

def QSF_MAX_IPC_MSG_SIZE : ℤ := 32 * 1024 * 1024

def QSF_DEFAULT_HWM : ℤ := 2048

/-- What `qsf_create_dealer` finds around it: a new socket with its options or `NULL`, what
the configuration says, and whether `zmq_connect` succeeds. -/
structure DealerEnv where
  socket : Option ZmqOptions
  maxRecvTimeout : Option ℤ
  maxIpcMsgSize : Option ℤ
  recvHwm : Option ℤ
  sendHwm : Option ℤ
  connect : Bool

/-- `qsf_create_dealer`: the options of the dealer, or `none` when the process aborts. -/
def qsfCreateDealer (env : DealerEnv) (identity : List UInt8) : Option ZmqOptions := do
  let dealer ← env.socket
  let dealer ← zmqSetsockopt dealer .identity identity
  let dealer ← zmqSetsockopt dealer .linger (storeInt 0)
  let dealer ← zmqSetsockopt dealer .rcvtimeo (storeInt (env.maxRecvTimeout.getD (-1)))
  let dealer ← zmqSetsockopt dealer .maxmsgsize
    (leBytes 8 ((env.maxIpcMsgSize.getD QSF_MAX_IPC_MSG_SIZE) % 18446744073709551616).toNat)
  let dealer ← zmqSetsockopt dealer .rcvhwm (storeInt (env.recvHwm.getD QSF_DEFAULT_HWM))
  let dealer ← zmqSetsockopt dealer .sndhwm (storeInt (env.sendHwm.getD QSF_DEFAULT_HWM))
  if env.connect then some dealer else none

/-- What the thread of a node comes to. -/
inductive NodeRun
  | noState                                         -- `init_node` returned 1
  | aborted                                         -- in `qsf_create_dealer`
  | notLoaded (identity path : List UInt8)          -- `luaL_loadfile` failed
  | ran (identity path args : List UInt8)           -- the chunk was called with its arguments
  deriving DecidableEq

/-- `node_thread_callback`, up to `cleanup_node`; `newstate` says that `luaL_newstate`
succeeds, `load` that `luaL_loadfile` does. `init_node` sets the tag last. -/
def nodeThreadCallback (env : DealerEnv) (newstate : Bool) (load : List UInt8 → Bool) (s : QsfNode) :
    Option NodeRun :=
  if !newstate then some .noState
  else do
    let identity ← s.readName 0
    match qsfCreateDealer env identity with
    | none => some .aborted
    | some _ =>
      let path ← s.readPath QSF_NODE_TAG_VALUE_GOOD
      if load path then
        let args ← s.readArgs QSF_NODE_TAG_VALUE_GOOD
        some (.ran identity path args)
      else some (.notLoaded identity path)

end Qsf
