import Qsf.Lib.Machine
import Qsf.Spec.LuaRuntime

/-!
# Callbacks and the Lua stack (`qsf_trace_pcall`, `on_server_read`, `timeout_cb`)

The loop calls back into C while `node.run` is being called, so that all callbacks of a node
work on the one stack of that call. The stack is a list, its top at the end; index `n` is
entry `n - 1` of it.

What the called function does comes from outside, and so does what it changes elsewhere:
each callback finds a runtime of its own.
-/

set_option autoImplicit false

namespace Qsf

abbrev LuaStack := List LuaValue

/-- What a Lua function does when it is called. -/
inductive LuaOutcome
  | returns
  | raises (err : LuaValue)

def LUA_OK : ℤ := 0

def LUA_ERRRUN : ℤ := 2

/-- `qsf_traceback`, on the stack. -/
def QSF_TRACEBACK : LuaValue := .function 0

/-- `lua_insert`: the top goes to index `idx`. -/
def luaInsert (stack : LuaStack) (idx : ℕ) :
    LuaStack := stack.dropLast.insertIdx (idx - 1) (luaTop stack)

/-- `lua_remove`. -/
def luaRemove (stack : LuaStack) (idx : ℕ) : LuaStack := stack.eraseIdx (idx - 1)

section

-- `luaL_callmeta` of `__tostring`, and `luaL_traceback`
variable (callmeta : LuaValue → Option LuaValue) (traceback : LuaValue → LuaValue)

/-- `qsf_traceback`. -/
def qsfTraceback (err : LuaValue) : LuaValue :=
  if luaIsstring err then traceback err
  else if err = .nil then err
  else
    match callmeta err with
    | none => err           -- Return non-string error object.
    | some str => if luaIsstring str then traceback str else str

/-- A message handler is called. There is only one in the program. -/
def luaHandle (msgh : Option LuaValue) (err : LuaValue) : LuaValue :=
  if msgh = some QSF_TRACEBACK then qsfTraceback callmeta traceback err else err

/-- `lua_pcall` without results: function and arguments are popped, and on an error one value
is pushed. -/
def luaPcall (stack : LuaStack) (narg msgh : ℕ) (outcome : LuaOutcome) : ℤ × LuaStack :=
  let below := stack.take (stack.length - (narg + 1))
  match outcome with
  | .returns => (LUA_OK, below)
  | .raises err => (LUA_ERRRUN, below ++ [luaHandle callmeta traceback stack[msgh - 1]? err])

/-- `qsf_trace_pcall`. Printing the error does not change the stack: the handler returns no
number, and nothing else is converted in place. -/
def qsfTracePcall (stack : LuaStack) (narg : ℕ) (outcome : LuaOutcome) : ℤ × LuaStack :=
  let base := stack.length - narg               -- function index
  let stack := stack ++ [QSF_TRACEBACK]         -- push traceback function
  let stack := luaInsert stack base             -- put it under chunk and args
  let (r, stack) := luaPcall callmeta traceback stack narg base outcome
  let stack := luaRemove stack base             -- remove traceback function
  (r, stack)

/-- `on_server_read` of server `i`. -/
def onServerRead (w : Runtime) (i : ℕ) (stack : LuaStack) (err : ℤ) (serial : UInt32)
    (data : List UInt8) (outcome : LuaOutcome) : LuaStack :=
  let stack := stack ++ [luaRawgeti w.registry (w.servers i).readRef]
  if luaIsfunction (luaTop stack) then
    let stack := stack ++ [if err = 0 then .nil else .integer err]
    let stack := stack ++ [.integer serial.toNat]
    let stack := stack ++ [.string data]
    (qsfTracePcall callmeta traceback stack 3 outcome).2
  else stack

/-- `timeout_cb` of timer `t`, up to the question whether the timer is active; the rest is
`Runtime.doneTimer`, and leaves the stack alone. -/
def timeoutCb (w : Runtime) (t : ℕ) (stack : LuaStack) (outcome : LuaOutcome) : LuaStack :=
  let stack := stack ++ [luaRawgeti w.registry (w.timers t).ref]
  if luaIsfunction (luaTop stack) then (qsfTracePcall callmeta traceback stack 0 outcome).2
  else stack

end

/-- A callback, with what it finds and what the Lua function does. -/
inductive StackEvent
  | serverRead (w : Runtime) (i : ℕ) (err : ℤ) (serial : UInt32) (data : List UInt8)
      (outcome : LuaOutcome)
  | timeout (w : Runtime) (t : ℕ) (outcome : LuaOutcome)

/-- The stack of one node, under any callbacks. -/
def luaStack (callmeta : LuaValue → Option LuaValue) (traceback : LuaValue → LuaValue) :
    Machine LuaStack StackEvent where
  init _ := True
  enabled _ _ := True
  step stack
    | .serverRead w i err serial data outcome =>
      onServerRead callmeta traceback w i stack err serial data outcome
    | .timeout w t outcome => timeoutCb callmeta traceback w t stack outcome

end Qsf
