import Qsf.Spec.LuaNet
import Qsf.Spec.ZmqOptions

/-!
# Socket options in the Lua binding (`zsocket_set_*` and `zsocket_get_*` in `lualib/lua_zmq.c`)

The options that have both a setter and a getter, on a socket that is open; `affinity` is left
out. Each function is one of a few, with its option filled in. Two of them use memory that
they did not write: some setters pass the address of a pointer, and the string getters read a
buffer up to a NUL. What is in that memory is decided by the environment.
-/

set_option autoImplicit false

namespace Qsf

def EINVAL : ℤ := 22

/-- `LZMQ_CHECK_THROW`. -/
def zmqError : LuaRaise := .error "zmq error %d: %s" EINVAL

/-- How Lua and C convert the values that are not of the type that is asked for. -/
structure Conversions where
  toInteger : LuaValue → Option ℤ
  toLstring : LuaValue → Option (List UInt8)
  toNumber : LuaValue → Option UInt64       -- a float, by its bits
  toUint64 : UInt64 → UInt64                -- such a float as an integer

/-- A setter: from its second argument and the cells of the socket. -/
abbrev Setter := LuaValue → ZmqOptions → Except LuaRaise ZmqOptions

/-- What a getter does. -/
inductive GetterResult
  | raises (e : LuaRaise)
  | returns (v : LuaValue)
  | overruns                -- reads memory that is not there
  deriving DecidableEq

abbrev Getter := ZmqOptions → GetterResult

/-- `lua_toboolean`. -/
def luaToboolean : LuaValue → Bool
  | .nil | .boolean false => false
  | _ => true

/-! ## Getters -/

section

-- the other form of a key, and memory from the buffer on
variable (z85 : List UInt8 → List UInt8) (buffer : List UInt8)

/-- `int value`, `lua_pushinteger`. -/
def getInt (opt : ZmqOption) : Getter := fun cells =>
  match zmqGetsockopt z85 cells opt 4 with
  | none => .raises zmqError
  | some value => .returns (.integer (loadInt value))

/-- `int value`, `lua_pushboolean`. -/
def getBoolean (opt : ZmqOption) : Getter := fun cells =>
  match zmqGetsockopt z85 cells opt 4 with
  | none => .raises zmqError
  | some value => .returns (.boolean (loadInt value ≠ 0))

/-- `lua_pushstring`, with the memory at its argument. -/
def luaPushstring (mem : List UInt8) : GetterResult :=
  match readCString mem 0 with
  | none => .overruns
  | some s => .returns (.string s)

/-- `char value[size]`, `lua_pushstring`: the length that was written is not looked at. -/
def getString (opt : ZmqOption) (size : ℕ) : Getter := fun cells =>
  match zmqGetsockopt z85 cells opt size with
  | none => .raises zmqError
  | some value => luaPushstring (value ++ buffer.drop value.length)

def zsocketGetRecvHwm : Getter := getInt z85 .rcvhwm

def zsocketGetSendHwm : Getter := getInt z85 .sndhwm

def zsocketGetIdentity : Getter := getString z85 buffer .identity 256

def zsocketGetRate : Getter := getInt z85 .rate

def zsocketGetRecoveryInterval : Getter := getInt z85 .recoveryIvl

def zsocketGetSendBuf : Getter := getInt z85 .sndbuf

def zsocketGetRecvBuf : Getter := getInt z85 .rcvbuf

def zsocketGetLinger : Getter := getInt z85 .linger

def zsocketGetReconnectInterval : Getter := getInt z85 .reconnectIvl

def zsocketGetReconnectIntervalMax : Getter := getInt z85 .reconnectIvlMax

def zsocketGetBacklog : Getter := getInt z85 .backlog

def zsocketGetMaxMsgSize : Getter := getInt z85 .maxmsgsize

def zsocketGetMulticastHops : Getter := getInt z85 .multicastHops

def zsocketGetRecvTimeout : Getter := getInt z85 .rcvtimeo

def zsocketGetSendTimeout : Getter := getInt z85 .sndtimeo

def zsocketGetIpv6 : Getter := getBoolean z85 .ipv6

def zsocketGetImmediate : Getter := getInt z85 .immediate

def zsocketGetTcpKeepalive : Getter := getInt z85 .tcpKeepalive

def zsocketGetTcpKeepaliveIdle : Getter := getInt z85 .tcpKeepaliveIdle

def zsocketGetTcpKeepaliveCount : Getter := getInt z85 .tcpKeepaliveCnt

def zsocketGetTcpKeepaliveInterval : Getter := getInt z85 .tcpKeepaliveIntvl

def zsocketGetPlainUsername : Getter := getString z85 buffer .plainUsername 256

def zsocketGetPlainPassword : Getter := getString z85 buffer .plainPassword 256

def zsocketGetCurvePublicKey : Getter := getString z85 buffer .curvePublickey 48

def zsocketGetCurveSecretKey : Getter := getString z85 buffer .curveSecretkey 48

def zsocketGetCurveServerKey : Getter := getString z85 buffer .curveServerkey 48

end

/-! ## Setters -/

/-- The rest of a setter. -/
def checkThrow : Option ZmqOptions → Except LuaRaise ZmqOptions
  | none => .error zmqError
  | some cells => .ok cells

section

-- conversions, and memory from the local variable `value` on
variable (conv : Conversions) (stack : ℕ → UInt8)

/-- `int value = (int)luaL_checkinteger(L, 2)`. -/
def setInt (opt : ZmqOption) : Setter := fun v cells =>
  match luaTointegerx conv.toInteger v with
  | none => .error (.badArg 2 "number expected")
  | some value => checkThrow (zmqSetsockopt cells opt (storeInt value))

/-- `int value = lua_toboolean(L, 2)`. -/
def setBoolean (opt : ZmqOption) : Setter := fun v cells =>
  checkThrow (zmqSetsockopt cells opt (storeInt (luaToboolean v).toInt))

/-- `uint64_t value = (uint64_t)luaL_checknumber(L, 2)`. -/
def setUint64 (opt : ZmqOption) : Setter := fun v cells =>
  match conv.toNumber v with
  | none => .error (.badArg 2 "number expected")
  | some value => checkThrow (zmqSetsockopt cells opt (leBytes 8 (conv.toUint64 value).toNat))

/-- `luaL_checklstring(L, 2, &len)`. -/
def setString (opt : ZmqOption) : Setter := fun v cells =>
  match luaTolstring conv.toLstring v with
  | none => .error (.badArg 2 "string expected")
  | some value => checkThrow (zmqSetsockopt cells opt value)

/-- The same, but the address is `&value`, that of the pointer. -/
def setAddress (opt : ZmqOption) : Setter := fun v cells =>
  match luaTolstring conv.toLstring v with
  | none => .error (.badArg 2 "string expected")
  | some value => checkThrow (zmqSetsockopt cells opt ((List.range value.length).map stack))

/-- The same as `setString`, with a check of the length. -/
def setKey (opt : ZmqOption) (len : ℕ) : Setter := fun v cells =>
  match luaTolstring conv.toLstring v with
  | none => .error (.badArg 2 "string expected")
  | some value =>
    if value.length = len then checkThrow (zmqSetsockopt cells opt value)
    else .error (.badArg 2 "invalid public key length")

def zsocketSetSendhwm : Setter := setInt conv .sndhwm

def zsocketSetRecvhwm : Setter := setInt conv .rcvhwm

def zsocketSetSendbuf : Setter := setInt conv .sndbuf

def zsocketSetRecvbuf : Setter := setInt conv .rcvbuf

def zsocketSetSendTimeout : Setter := setInt conv .sndtimeo

def zsocketSetRecvTimeout : Setter := setInt conv .rcvtimeo

def zsocketSetIdentity : Setter := setString conv .identity

def zsocketSetRate : Setter := setInt conv .rate

def zsocketSetRecoveryInterval : Setter := setInt conv .recoveryIvl

def zsocketSetReconnectInterval : Setter := setInt conv .reconnectIvl

def zsocketSetReconnectIntervalMax : Setter := setInt conv .reconnectIvlMax

def zsocketSetBacklog : Setter := setInt conv .backlog

def zsocketSetLinger : Setter := setInt conv .linger

def zsocketSetImmediate : Setter := setBoolean .immediate

def zsocketSetTcpKeepalive : Setter := setInt conv .tcpKeepalive

def zsocketSetTcpKeepaliveIdle : Setter := setInt conv .tcpKeepaliveIdle

def zsocketSetTcpKeepaliveCount : Setter := setInt conv .tcpKeepaliveCnt

def zsocketSetTcpKeepaliveInterval : Setter := setInt conv .tcpKeepaliveIntvl

def zsocketSetMaxMsgSize : Setter := setUint64 conv .maxmsgsize

def zsocketSetMulticastHops : Setter := setInt conv .multicastHops

def zsocketSetPlainUsername : Setter := setAddress conv stack .plainUsername

def zsocketSetPlainPassword : Setter := setAddress conv stack .plainPassword

def zsocketSetCurveSecretKey : Setter := setKey conv .curveSecretkey 32

def zsocketSetCurvePublicKey : Setter := setKey conv .curvePublickey 32

def zsocketSetCurveServerKey : Setter := setKey conv .curveServerkey 40

def zsocketSetIpv6 : Setter := setBoolean .ipv6

end

/-! ## The pairs -/

namespace ZmqOption

/-- The method that sets an option. -/
def setter (conv : Conversions) (stack : ℕ → UInt8) : ZmqOption → Setter
  | .sndhwm => zsocketSetSendhwm conv
  | .rcvhwm => zsocketSetRecvhwm conv
  | .sndbuf => zsocketSetSendbuf conv
  | .rcvbuf => zsocketSetRecvbuf conv
  | .sndtimeo => zsocketSetSendTimeout conv
  | .rcvtimeo => zsocketSetRecvTimeout conv
  | .rate => zsocketSetRate conv
  | .recoveryIvl => zsocketSetRecoveryInterval conv
  | .reconnectIvl => zsocketSetReconnectInterval conv
  | .reconnectIvlMax => zsocketSetReconnectIntervalMax conv
  | .backlog => zsocketSetBacklog conv
  | .linger => zsocketSetLinger conv
  | .immediate => zsocketSetImmediate
  | .tcpKeepalive => zsocketSetTcpKeepalive conv
  | .tcpKeepaliveIdle => zsocketSetTcpKeepaliveIdle conv
  | .tcpKeepaliveCnt => zsocketSetTcpKeepaliveCount conv
  | .tcpKeepaliveIntvl => zsocketSetTcpKeepaliveInterval conv
  | .multicastHops => zsocketSetMulticastHops conv
  | .ipv6 => zsocketSetIpv6
  | .maxmsgsize => zsocketSetMaxMsgSize conv
  | .identity => zsocketSetIdentity conv
  | .plainUsername => zsocketSetPlainUsername conv stack
  | .plainPassword => zsocketSetPlainPassword conv stack
  | .curvePublickey => zsocketSetCurvePublicKey conv
  | .curveSecretkey => zsocketSetCurveSecretKey conv
  | .curveServerkey => zsocketSetCurveServerKey conv

/-- The method that gets it. -/
def getter (z85 : List UInt8 → List UInt8) (buffer : List UInt8) : ZmqOption → Getter
  | .sndhwm => zsocketGetSendHwm z85
  | .rcvhwm => zsocketGetRecvHwm z85
  | .sndbuf => zsocketGetSendBuf z85
  | .rcvbuf => zsocketGetRecvBuf z85
  | .sndtimeo => zsocketGetSendTimeout z85
  | .rcvtimeo => zsocketGetRecvTimeout z85
  | .rate => zsocketGetRate z85
  | .recoveryIvl => zsocketGetRecoveryInterval z85
  | .reconnectIvl => zsocketGetReconnectInterval z85
  | .reconnectIvlMax => zsocketGetReconnectIntervalMax z85
  | .backlog => zsocketGetBacklog z85
  | .linger => zsocketGetLinger z85
  | .immediate => zsocketGetImmediate z85
  | .tcpKeepalive => zsocketGetTcpKeepalive z85
  | .tcpKeepaliveIdle => zsocketGetTcpKeepaliveIdle z85
  | .tcpKeepaliveCnt => zsocketGetTcpKeepaliveCount z85
  | .tcpKeepaliveIntvl => zsocketGetTcpKeepaliveInterval z85
  | .multicastHops => zsocketGetMulticastHops z85
  | .ipv6 => zsocketGetIpv6 z85
  | .maxmsgsize => zsocketGetMaxMsgSize z85
  | .identity => zsocketGetIdentity z85 buffer
  | .plainUsername => zsocketGetPlainUsername z85 buffer
  | .plainPassword => zsocketGetPlainPassword z85 buffer
  | .curvePublickey => zsocketGetCurvePublicKey z85 buffer
  | .curveSecretkey => zsocketGetCurveSecretKey z85 buffer
  | .curveServerkey => zsocketGetCurveServerKey z85 buffer

/-- The value that the setter finds in its argument. -/
def value (conv : Conversions) (v : LuaValue) : ZmqOption → Option LuaValue
  | .ipv6 | .immediate => some (.boolean (luaToboolean v))
  | .maxmsgsize => (conv.toNumber v).map .number
  | .identity | .plainUsername | .plainPassword | .curvePublickey | .curveSecretkey | .curveServerkey =>
    (luaTolstring conv.toLstring v).map .string
  | _ => (luaTointegerx conv.toInteger v).map .integer

end ZmqOption

end Qsf
