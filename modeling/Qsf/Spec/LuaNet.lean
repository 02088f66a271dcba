import Qsf.Spec.Framing
import Qsf.Spec.LuaRuntime

/-!
# The methods of a server object (`lualib/lua_net.c`)

`server:write`, `server:broadcast`, `server:shutdown` and `server:kick`. A script names a
session by an integer of Lua and gives a message as a string; the C functions narrow the
integer to 32 bits and the length of the string to 16.

`LuaCall.spec` is what a script expects of these calls. It knows no narrowing: the session
is the one whose serial is the integer, and a message is what one frame carries.
-/

set_option autoImplicit false

namespace Qsf

section

-- what Lua converts to an integer or to a string, besides integers and strings
variable (toInteger : LuaValue → Option ℤ) (toLstring : LuaValue → Option (List UInt8))

/-- `lua_tointegerx`. -/
def luaTointegerx : LuaValue → Option ℤ
  | .integer n => some n
  | v => toInteger v

/-- `lua_tolstring`. -/
def luaTolstring : LuaValue → Option (List UInt8)
  | .string s => some s
  | v => toLstring v

def UINT16_MAX : ℕ := 65535

/-- `luaL_error(L, "too big packet to write: %d/%d", size, UINT16_MAX)`. -/
def tooBig (size : ℕ) : LuaRaise := .error "too big packet to write: %d/65535" size

namespace Runtime

/-- Another state of the C server of object `i`. -/
def setC (w : Runtime) (i : ℕ) (c : Server) : Runtime := w.setServer i { w.servers i with c := c }

/-- `server_write`; `r` is the result of `uv_write`. -/
def serverWrite (w : Runtime) (args : List LuaValue) (r : ℤ) : Runtime × Option LuaRaise :=
  match checkServer args with
  | none => (w, some (.badArg 1 "server* expected"))
  | some i =>
    match luaTointegerx toInteger (luaArg args 2), luaTolstring toLstring (luaArg args 3) with
    | none, _ => (w, some (.badArg 2 "number expected"))
    | some _, none => (w, some (.badArg 3 "string expected"))
    | some serial, some data =>
      if data.length ≤ UINT16_MAX then
        let (_, c) := (w.servers i).c.qsfNetServerWrite (UInt32.ofInt serial) data
          (UInt16.ofNat data.length) r
        (w.setC i c, none)
      else (w, some (tooBig data.length))

/-- `server_broadcast`; `r a` is the result of `uv_write` on session `a`. -/
def serverBroadcast (w : Runtime) (args : List LuaValue) (r : ℕ → ℤ) : Runtime × Option LuaRaise :=
  match checkServer args with
  | none => (w, some (.badArg 1 "server* expected"))
  | some i =>
    match luaTolstring toLstring (luaArg args 2) with
    | none => (w, some (.badArg 2 "string expected"))
    | some data =>
      if data.length ≤ UINT16_MAX then
        let (_, c) := (w.servers i).c.qsfNetServerWriteAll data (UInt16.ofNat data.length) r
        (w.setC i c, none)
      else (w, some (tooBig data.length))

/-- `server_shutdown`; `r` is the result of `uv_shutdown`. -/
def serverShutdown (w : Runtime) (args : List LuaValue) (r : ℤ) : Runtime × Option LuaRaise :=
  match checkServer args with
  | none => (w, some (.badArg 1 "server* expected"))
  | some i =>
    match luaTointegerx toInteger (luaArg args 2) with
    | none => (w, some (.badArg 2 "number expected"))
    | some serial => (w.setC i ((w.servers i).c.qsfNetServerShutdown (UInt32.ofInt serial) r), none)

/-- `server_close`, the method `kick`. -/
def serverClose (w : Runtime) (args : List LuaValue) : Runtime × Option LuaRaise :=
  match checkServer args with
  | none => (w, some (.badArg 1 "server* expected"))
  | some i =>
    match luaTointegerx toInteger (luaArg args 2) with
    | none => (w, some (.badArg 2 "number expected"))
    | some serial => (w.setC i ((w.servers i).c.qsfNetServerClose (UInt32.ofInt serial)), none)

end Runtime

end

/-! ## Calls of a script -/

/-- A call on a server object with an integer and a string of Lua. -/
inductive LuaCall
  | write (i : ℤ) (d : List UInt8)
  | broadcast (d : List UInt8)
  | shutdown (i : ℤ) (r : ℤ)   -- `r` is the result of `uv_shutdown`
  | kick (i : ℤ)

namespace LuaCall

/-- The call on object `k`, while `uv_write` succeeds. -/
def run (toInteger : LuaValue → Option ℤ) (toLstring : LuaValue → Option (List UInt8)) (w : Runtime)
    (k : ℕ) :
    LuaCall → Runtime × Option LuaRaise
  | .write i d => w.serverWrite toInteger toLstring [.userdata k, .integer i, .string d] 0
  | .broadcast d => w.serverBroadcast toLstring [.userdata k, .string d] fun _ => 0
  | .shutdown i r => w.serverShutdown toInteger [.userdata k, .integer i] r
  | .kick i => w.serverClose toInteger [.userdata k, .integer i]

end LuaCall

/-! ## What a script expects -/

/-- A message of 1 to 65535 bytes. -/
def FitsFrame (d : List UInt8) : Prop := 1 ≤ d.length ∧ d.length ≤ 65535

instance (d : List UInt8) : Decidable (FitsFrame d) := inferInstanceAs (Decidable (_ ∧ _))

/-- A frame is queued behind the bytes of a session. -/
def Session.queue (σ : Session) (d : List UInt8) : Session := { σ with out := σ.out ++ frame d }

/-- The session takes no more input, and is shut down if libuv accepts the request. -/
def Session.halt (σ : Session) (r : ℤ) : Session :=
  { σ with handle := uvStop σ.handle, shut := σ.shut || decide (0 ≤ r) }

namespace Server

/-- The live session whose serial is `i`. -/
def sessionOf (c : Server) (i : ℤ) : Option ℕ :=
  c.sessionMap.items.find? fun a => ((c.sess a).serial.toNat : ℤ) = i

/-- The change `f` of that session; none when there is no such session. -/
def onSerial (c : Server) (i : ℤ) (f : ℕ → Server) : Server :=
  match c.sessionOf i with
  | none => c
  | some a => f a

/-- A session leaves the map, and its handle is closed. -/
def kicked (c : Server) (a : ℕ) : Server :=
  { c.setSess a { c.sess a with handle := uvCloseOnce (uvStop (c.sess a).handle) } with
    sessionMap := c.sessionMap.del a
    trace := c.trace ++ [.remove a, .destroy a] }

/-- Every live session gets the frame. -/
def queued (c : Server) (d : List UInt8) : Server :=
  { c with sess := fun a => if a ∈ c.sessionMap.items then (c.sess a).queue d else c.sess a }

end Server

namespace LuaCall

/-- The server after a call; `none` for an error, which changes nothing. -/
def spec (c : Server) : LuaCall → Option Server
  | .write i d =>
    if FitsFrame d then some (c.onSerial i fun a => c.setSess a ((c.sess a).queue d)) else none
  | .broadcast d => if FitsFrame d then some (c.queued d) else none
  | .shutdown i r => some (c.onSerial i fun a => c.setSess a ((c.sess a).halt r))
  | .kick i => some (c.onSerial i c.kicked)

/-- The integer by which a call names a session. -/
def named : LuaCall → Option ℤ
  | .write i _ => some i
  | .broadcast _ => none
  | .shutdown i _ => some i
  | .kick i => some i

/-- **The call does what a script expects**: it ends as `spec` says, or raises an error and
changes nothing. No assertion fails in it, since that would show in the state. -/
def Agrees (toInteger : LuaValue → Option ℤ) (toLstring : LuaValue → Option (List UInt8))
    (w : Runtime) (k : ℕ) (call : LuaCall) : Prop :=
  match call.spec (w.servers k).c with
  | some c => call.run toInteger toLstring w k = (w.setC k c, none)
  | none => ∃ e, call.run toInteger toLstring w k = (w, some e)

/-- The integer is a 32-bit value, or no live session has the serial it is narrowed to. -/
def Hits (c : Server) (i : ℤ) : Prop :=
  (0 ≤ i ∧ i < 4294967296) ∨ c.hashFindInt (UInt32.ofInt i) = none

/-- The narrowing does no harm, and the message is not empty. -/
def Carried (c : Server) : LuaCall → Prop
  | .write i d => d ≠ [] ∧ (65535 < d.length ∨ Hits c i)
  | .broadcast d => d ≠ []
  | .shutdown i r => Hits c i ∨ ∀ a, c.hashFindInt (UInt32.ofInt i) = some a →
      (c.sess a).handle.active = false ∧ (r < 0 ∨ (c.sess a).shut = true)
  | .kick i => Hits c i

end LuaCall

end Qsf
