import Qsf.Spec.Lua
import Qsf.Spec.NetServer

/-!
# Servers and timers of a script (`lualib/lua_net.c`, `lualib/luv/luv_timer.h`)

The Lua side of a node: server objects, timers, and the registry where both keep their
callbacks. Objects are numbered in the order of their creation. Lua itself is not part of
the repository; what the code relies on is here: `luaL_ref` takes the value on top of the
stack, `luaL_unref` puts the number on a free list, a failed check raises an error, and
the collector calls `__gc` once for an object that no script can reach.

User code runs while a timer fires (`fireTimer` up to `doneTimer`), and may do anything
in between.
-/

set_option autoImplicit false

namespace Qsf

/-! ## Objects -/

/-- `net_server_t` and the C server it owns. -/
structure LuaServer where
  c : Server
  readRef : ℤ
  /-- `__gc` was called. -/
  collected : Bool
  /-- Argument 4 of the last call of `start` that succeeded. -/
  given : Option LuaValue

/-- `luv_timer_t`. -/
structure LuvTimer where
  handle : UvHandle
  repeatMs : UInt64
  ref : ℤ
  /-- `handle.data` points to the timer. -/
  data : Bool
  freed : ℕ
  /-- Argument 3 of `createTimer`. -/
  given : Option LuaValue

/-- The memory of a timer after `memset`. -/
def LuvTimer.zero : LuvTimer := ⟨.zero, 0, 0, false, 0, none⟩

structure Runtime where
  servers : ℕ → LuaServer
  serverCount : ℕ
  timers : ℕ → LuvTimer
  timerCount : ℕ
  registry : Registry
  /-- The timer whose callback is running. -/
  firing : Option ℕ

namespace Runtime

def setServer (w : Runtime) (i : ℕ) (o : LuaServer) : Runtime :=
  { w with servers := Function.update w.servers i o }

def setTimer (w : Runtime) (t : ℕ) (o : LuvTimer) : Runtime :=
  { w with timers := Function.update w.timers t o }

/-- A new Lua state. Numbers 1 and 2 of the registry are taken by Lua itself. -/
def init : Runtime where
  servers := fun _ => ⟨Server.qsfCreateNetServer 0 0 0, LUA_NOREF, false, none⟩
  serverCount := 0
  timers := fun _ => LuvTimer.zero
  timerCount := 0
  registry := RefPool.init 3
  firing := none

/-! ## `lua_net.c` -/

def NET_DEFAULT_MAX_CONN : ℤ := 5000

def NET_DEFAULT_HEARTBEAT : ℤ := 60

def NET_DEFAULT_HEARTBEAT_CHECK : ℤ := 10

section

-- `lua_tointegerx`: the integer a number or a string stands for
variable (toInteger : LuaValue → Option ℤ)

/-- `luaL_optinteger`. -/
def luaLOptinteger (args : List LuaValue) (n : ℕ) (default : ℤ) : Except LuaRaise ℤ :=
  if luaArg args n = .nil then .ok default
  else match toInteger (luaArg args n) with
    | some k => .ok k
    | none => .error (.badArg n "number expected")

/-- `create_server`. -/
def createServer (w : Runtime) (args : List LuaValue) : Runtime × Except LuaRaise LuaValue :=
  let checked := do
    let maxConnections ← luaLOptinteger toInteger args 1 NET_DEFAULT_MAX_CONN
    let heartbeatSec ← luaLOptinteger toInteger args 2 NET_DEFAULT_HEARTBEAT
    let heartbeatCheckSec ← luaLOptinteger toInteger args 3 NET_DEFAULT_HEARTBEAT_CHECK
    return (UInt32.ofInt maxConnections, UInt16.ofInt heartbeatSec, UInt16.ofInt heartbeatCheckSec)
  match checked with
  | .error e => (w, .error e)
  | .ok (maxConnections, heartbeatSec, heartbeatCheckSec) =>
    let c := Server.qsfCreateNetServer maxConnections heartbeatSec heartbeatCheckSec
    ({ w.setServer w.serverCount ⟨c, LUA_NOREF, false, none⟩ with serverCount := w.serverCount + 1 },
      .ok (.userdata w.serverCount))

/-- `check_server`. -/
def checkServer (args : List LuaValue) : Option ℕ :=
  match luaArg args 1 with
  | .userdata i => some i
  | _ => none

/-- `server_start`; `r` holds the results of the libuv calls in `qsf_net_server_start`. -/
def serverStart (w : Runtime) (args : List LuaValue) (r : StartResult) : Runtime × Option LuaRaise :=
  match checkServer args with
  | none => (w, some (.badArg 1 "server* expected"))
  | some i =>
    let w := { w with registry := luaLUnref w.registry (w.servers i).readRef }
    if luaIsstring (luaArg args 2) = false then (w, some (.badArg 2 "string expected"))
    else if toInteger (luaArg args 3) = none then (w, some (.badArg 3 "number expected"))
    else if luaIsfunction (luaArg args 4) = false then
      (w, some (.badArg 4 "read callback must be function type"))
    else
      let (readRef, registry) := luaLRef w.registry (luaTop args)
      let (res, c) := (w.servers i).c.qsfNetServerStart r
      let given := if res < 0 then (w.servers i).given else some (luaArg args 4)
      ({ w with registry := registry }.setServer i
          { w.servers i with c := c, readRef := readRef, given := given },
        if res < 0 then some (.error "net.server start failed: %s" res) else none)

end

/-- `server_gc`. -/
def serverGc (w : Runtime) (i : ℕ) : Runtime :=
  let o := w.servers i
  { w.setServer i { o with c := o.c.qsfNetServerDestroy, collected := true } with
    registry := luaLUnref w.registry o.readRef }

/-- `on_server_read`: user code only runs when the reference denotes a function. -/
def onServerRead (w : Runtime) (i : ℕ) (cb : Callback) : Callback := fun r s =>
  if luaIsfunction (luaRawgeti w.registry (w.servers i).readRef) then cb r s else []

/-- The loop or a script does something to server `i`. -/
def netStep (w : Runtime) (i : ℕ) (e : Event) : Runtime :=
  w.setServer i { w.servers i with c := (w.servers i).c.step { e with cb := w.onServerRead i e.cb } }

/-! ## `luv_timer.h` -/

/-- `luv_new_timer`; `rInit` and `rStart` are the results of `uv_timer_init` and
`uv_timer_start`. -/
def luvNewTimer (toInteger : LuaValue → Option ℤ) (w : Runtime) (args : List LuaValue)
    (rInit rStart : ℤ) : Runtime × Option LuaRaise :=
  let t := w.timerCount
  let w := { w with timerCount := t + 1 }
  if rInit < 0 then
    (w.setTimer t { LuvTimer.zero with freed := 1 }, some (.error "%s: %s" rInit))
  else
    let timer := { LuvTimer.zero with handle := uvInit }
    -- an error raised from here on leaves the timer behind, initialised
    match toInteger (luaArg args 1), toInteger (luaArg args 2) with
    | none, _ => (w.setTimer t timer, some (.badArg 1 "number expected"))
    | some _, none => (w.setTimer t timer, some (.badArg 2 "number expected"))
    | some _, some repeatMs =>
      if luaIsfunction (luaArg args 3) = false then
        (w.setTimer t timer, some (.badArg 3 "timer callback must be function type"))
      else
        let (ref, registry) := luaLRef w.registry (luaTop args)
        let timer := { timer with ref := ref, data := true, given := some (luaArg args 3) }
        if rStart < 0 then
          ({ w with registry := luaLUnref registry ref }.setTimer t { timer with freed := 1 },
            some (.error "%s: %s" rStart))
        else
          ({ w with registry := registry }.setTimer t
            { timer with handle := uvStart timer.handle, repeatMs := UInt64.ofInt repeatMs }, none)

/-- A timer expires: libuv stops it, starts it again when it repeats, and calls
`timeout_cb`, which runs the function the reference denotes. -/
def fireTimer (w : Runtime) (t : ℕ) : Runtime :=
  let timer := w.timers t
  let handle := if timer.repeatMs = 0 then uvStop timer.handle else timer.handle
  { w.setTimer t { timer with handle := handle } with firing := some t }

/-- The rest of `timeout_cb`, after the call of the function. -/
def doneTimer (w : Runtime) (t : ℕ) : Runtime :=
  let timer := w.timers t
  let w := { w with firing := none }
  if timer.handle.active then w
  else
    { w.setTimer t { timer with ref := LUA_NOREF, handle := uvCloseOnce timer.handle } with
      registry := luaLUnref w.registry timer.ref }

/-- `on_timer_close`, run when the handle turns from closing to closed. -/
def timerTurn (timer : LuvTimer) : LuvTimer :=
  if timer.handle.phase = .closing then
    { timer with handle := uvTurn timer.handle, freed := timer.freed + 1 }
  else timer

/-- The closing phase of one loop turn. -/
def loopTurn (w : Runtime) : Runtime :=
  { w with
    servers := fun i => { w.servers i with c := (w.servers i).c.loopTurn }
    timers := fun t => timerTurn (w.timers t) }

end Runtime

/-! ## The runtime -/

inductive RuntimeEvent
  | createServer (args : List LuaValue)
  | start (args : List LuaValue) (r : StartResult)
  | net (i : ℕ) (e : Event)
  | gc (i : ℕ)
  | createTimer (args : List LuaValue) (rInit rStart : ℤ)
  | fire (t : ℕ)
  | done (t : ℕ)
  | turn

namespace Runtime

/-- Server `i` exists, and was not collected. -/
def Usable (w : Runtime) (i : ℕ) : Prop := i < w.serverCount ∧ (w.servers i).collected = false

/-- What the loop delivers, as opposed to what a script calls. -/
def fromLoop : Input → Bool
  | .op _ => false
  | _ => true

/-- What Lua and libuv promise: a collected object is not used any more, and not collected
again; timers expire while they are started; the loop does nothing else while the callback
of a timer runs. -/
def enabled (w : Runtime) : RuntimeEvent → Prop
  | .createServer _ => True
  | .start args _ => ∀ i, checkServer args = some i → w.Usable i
  | .net i e => w.Usable i ∧ (w.servers i).c.enabled e ∧ (fromLoop e.input = true → w.firing = none) ∧
      (∀ r, e.input ≠ .start r) ∧ e.input ≠ .turn
  | .gc i => w.Usable i
  | .createTimer _ _ _ => True
  | .fire t => t < w.timerCount ∧ (w.timers t).handle.active = true ∧ w.firing = none
  | .done t => w.firing = some t
  | .turn => w.firing = none

def step (toInteger : LuaValue → Option ℤ) (w : Runtime) : RuntimeEvent → Runtime
  | .createServer args => (createServer toInteger w args).1
  | .start args r => (serverStart toInteger w args r).1
  | .net i e => w.netStep i e
  | .gc i => w.serverGc i
  | .createTimer args rInit rStart => (luvNewTimer toInteger w args rInit rStart).1
  | .fire t => w.fireTimer t
  | .done t => w.doneTimer t
  | .turn => w.loopTurn

end Runtime

/-- A script with its servers and timers, for any conversion of values to integers. -/
def luaRuntime (toInteger : LuaValue → Option ℤ) : Machine Runtime RuntimeEvent where
  init w := w = Runtime.init
  enabled := Runtime.enabled
  step := Runtime.step toInteger

end Qsf
