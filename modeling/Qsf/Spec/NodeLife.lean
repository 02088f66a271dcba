import Qsf.Lib.Machine

/-!
# The life of a node (`node_thread_callback` in `qsf_node.c`, `lualib/lua_node.c`)

One node from `init_node` to the end of `cleanup_node`, cut where Lua code of the node can
run: while the libraries are opened, while the script runs, and while `lua_close` runs the
finalizers that are left. Such code may set finalizers, have them collected, and call the
`node` library, whose functions check the tag of the node and nothing else.

Only finalizers set by Lua code are counted: those of C libraries run no Lua code.
`misused` is a record, read by the theorems only.
-/

set_option autoImplicit false

namespace Qsf

def QSF_NODE_TAG_VALUE_GOOD : UInt32 := 0xabadcafe

def QSF_NODE_TAG_VALUE_BAD : UInt32 := 0xdeadbeef

/-- A socket or a loop. -/
inductive Resource
  | unset     -- memory set to zero
  | opened
  | closed
  deriving DecidableEq

/-- Where the thread of the node is. -/
inductive LifePhase
  | created       -- before `init_node`
  | opening       -- `luaL_openlibs`, `open_preload_libs`, `load_node_path`
  | failed        -- `init_node` returned 1
  | script        -- the script runs, or has ended
  | luaClose      -- in `lua_close`
  | luaClosed     -- behind it
  | ended
  deriving DecidableEq

/-- `qsf_node_t`, the fields with a life of their own. -/
structure NodeLife where
  phase : LifePhase
  loop : Resource
  dealer : Resource
  /-- `s->L` is set. -/
  luaState : Bool
  tag : UInt32
  /-- Objects whose finalizer was not run. -/
  finalizers : ℕ
  /-- A closed socket or loop was operated on, or one that never was open. -/
  misused : Bool
  deriving DecidableEq

/-- The functions of the `node` library. -/
inductive NodeCall
  | send
  | recv
  | name
  | run
  | launch

inductive LifeEvent
  | initNode (loopInit newstate : Bool)   -- `uv_loop_init` succeeds, `luaL_newstate` too
  | opened                                -- the rest of `init_node`
  | setFinalizer
  | finalized                             -- a finalizer was run
  | call (c : NodeCall)
  | cleanupNode                           -- up to `lua_close`
  | luaClosed                             -- `lua_close` returns
  | ended (loopClose : Bool)              -- the rest; `uv_loop_close` succeeds

namespace NodeLife

/-- `create_from_node_list`: memory set to zero. -/
def create : NodeLife := ⟨.created, .unset, .unset, false, 0, 0, false⟩

/-- `qsf_node_check_tag`. -/
def checkTag (s : NodeLife) : Bool := s.tag = QSF_NODE_TAG_VALUE_GOOD

/-- Lua code of the node can run. -/
def LuaRuns (s : NodeLife) : Prop :=
  s.phase = .opening ∨ s.phase = .script ∨ s.phase = .luaClose ∧ s.finalizers ≠ 0

instance (s : NodeLife) : Decidable s.LuaRuns :=
  inferInstanceAs (Decidable (_ ∨ _ ∨ _ ∧ _))

/-- The beginning of `init_node`. The result of `uv_loop_init` is not looked at. -/
def initNode (s : NodeLife) (loopInit newstate : Bool) : NodeLife :=
  let s := { s with loop := if loopInit then .opened else .unset }
  if newstate then { s with phase := .opening } else { s with phase := .failed }

/-- The end of `init_node`. `qsf_create_dealer` returns a socket or aborts. -/
def opened (s : NodeLife) : NodeLife :=
  { s with luaState := true, dealer := .opened, tag := QSF_NODE_TAG_VALUE_GOOD, phase := .script }

/-- `cleanup_node`, up to the call of `lua_close`. -/
def cleanupNode (s : NodeLife) : NodeLife :=
  let s := if s.dealer ≠ .unset then { s with dealer := .closed } else s
  if s.luaState then { s with phase := .luaClose } else { s with phase := .luaClosed }

/-- `cleanup_node`, behind `lua_close`. -/
def cleanupEnd (s : NodeLife) (loopClose : Bool) : NodeLife :=
  { s with
    loop := if loopClose then .closed else s.loop
    tag := QSF_NODE_TAG_VALUE_BAD
    phase := .ended }

/-- An operation on a socket or a loop. -/
def operate (s : NodeLife) (r : Resource) :
    NodeLife := { s with misused := s.misused || decide (r ≠ .opened) }

/-- A function of the `node` library: a bad tag raises an error. -/
def nodeCall (s : NodeLife) (c : NodeCall) : NodeLife :=
  if !s.checkTag then s
  else
    match c with
    | .send => s.operate s.dealer     -- `zmq_send`
    | .recv => s.operate s.dealer     -- `zmq_msg_recv`
    | .run => s.operate s.loop        -- `uv_run`
    | .name => s
    | .launch => s

/-- What can happen next. Finalizers set while `lua_close` runs are not run. -/
def enabled (s : NodeLife) : LifeEvent → Prop
  | .initNode _ _ => s.phase = .created
  | .opened => s.phase = .opening
  | .setFinalizer => s.LuaRuns
  | .finalized => s.LuaRuns ∧ s.finalizers ≠ 0
  | .call _ => s.LuaRuns
  | .cleanupNode => s.phase = .script ∨ s.phase = .failed
  | .luaClosed => s.phase = .luaClose ∧ s.finalizers = 0
  | .ended _ => s.phase = .luaClosed

def step (s : NodeLife) : LifeEvent → NodeLife
  | .initNode loopInit newstate => s.initNode loopInit newstate
  | .opened => s.opened
  | .setFinalizer => if s.phase = .luaClose then s else { s with finalizers := s.finalizers + 1 }
  | .finalized => { s with finalizers := s.finalizers - 1 }
  | .call c => s.nodeCall c
  | .cleanupNode => s.cleanupNode
  | .luaClosed => { s with phase := .luaClosed }
  | .ended loopClose => s.cleanupEnd loopClose

end NodeLife

/-- One node, with any script. -/
def nodeLife : Machine NodeLife LifeEvent where
  init s := s = NodeLife.create
  enabled := NodeLife.enabled
  step := NodeLife.step

end Qsf
