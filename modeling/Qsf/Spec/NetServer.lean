import Qsf.Lib.Intrusive
import Qsf.Lib.Machine
import Qsf.Spec.Bytes
import Qsf.Spec.Uv

/-!
# The net server (`net/qsf_net_server.c`)

A server is its C object together with the memory of its sessions: sessions are
numbered in the order of `session_create`, and a number stands for the address.
`session_map` is an insertion-ordered intrusive map of these addresses.

`on_read` is user code. It is modelled as the calls it makes back into the server
(`Callback`): a list of calls that may depend on what is reported and on the whole
state, so any finite program is one.

`trace` is a record of what happened, read by the theorems only: sessions added to
the map, calls of `on_read`, removals from the map, calls of `session_destroy`.
-/

set_option autoImplicit false

namespace Qsf

def START_SERIAL_NUMBER : UInt32 := 1000

def DEFAULT_RECV_BUF_SIZE : UInt32 := 128

def NET_ERR_CONN_LIMIT : ℤ := 100001

def NET_ERR_TIMEOUT : ℤ := 100002

/-- `qsf_net_session_t`. -/
structure Session where
  serial : UInt32
  lastRecvTime : UInt64
  handle : UvHandle
  /-- Bytes handed to `uv_write`, in order. -/
  out : List UInt8
  /-- `uv_shutdown` was requested. -/
  shut : Bool
  bufSize : UInt32
  recvBytes : UInt16
  bodySize : UInt16
  recvBuf : List Cell
  /-- How often the object was freed. -/
  freed : ℕ

/-- Memory before `session_create`. -/
def Session.zero : Session := ⟨0, 0, .zero, [], false, 0, 0, 0, [], 0⟩

/-- The header is complete: take the body size from it, and grow the buffer for it. -/
def Session.takeHeader (σ : Session) : Session :=
  let size := loadU16 ((σ.recvBuf[0]?.join).getD 0) ((σ.recvBuf[1]?.join).getD 0)
  let σ := { σ with bodySize := ntohs size, recvBytes := 0 }
  if σ.bufSize < σ.bodySize.toUInt32 then
    { σ with recvBuf := qsfMalloc σ.bodySize.toNat, bufSize := σ.bodySize.toUInt32 }
  else σ

/-- The part of `on_session_read` on the session itself, for `nread > 0` bytes: the new
session, and the body to report when one is complete. -/
def Session.fill (σ : Session) (now : UInt64) (nread : ℤ) : Session × Option (List Cell) :=
  let σ := { σ with lastRecvTime := now, recvBytes := σ.recvBytes + UInt16.ofInt nread }
  let size := σ.bodySize
  if size = 0 then -- header not full-filled
    if σ.recvBytes = 2 then (σ.takeHeader, none) else (σ, none)
  else -- fill body content
    if σ.recvBytes = size then
      ({ σ with recvBytes := 0, bodySize := 0 }, some (σ.recvBuf.take size.toNat))
    else (σ, none)

/-- `on_session_close`, run when the handle of the session turns from closing to closed. -/
def Session.turn (σ : Session) : Session :=
  if σ.handle.phase = .closing then { σ with handle := uvTurn σ.handle, freed := σ.freed + 1 } else σ

/-- The bytes given to `on_read`. -/
inductive Payload
  | body (cells : List Cell)
  | text (msg : String)
  | uvStrerror (code : ℤ)   -- the text libuv has for an error code
  deriving DecidableEq

/-- The arguments of one call of `on_read`. -/
structure Report where
  err : ℤ
  serial : UInt32
  data : Payload
  deriving DecidableEq

inductive TraceEvent
  | accept (a : ℕ) (serial : UInt32)
  | report (who : Option ℕ) (r : Report)
  | remove (a : ℕ)
  | destroy (a : ℕ)
  deriving DecidableEq

/-- `qsf_net_server_t` and the sessions it allocated. -/
structure Server where
  maxConnection : UInt32
  maxHeartBeat : UInt16
  heartBeatCheck : UInt16
  stopped : Bool
  nextSerial : UInt32
  /-- `on_read` is set (by `qsf_net_server_start`). -/
  onRead : Bool
  acceptor : UvHandle
  /-- A connection was reported on the acceptor and not taken by `uv_accept`. -/
  pending : Bool
  timer : UvHandle
  timerRepeat : UInt64
  sessionMap : IMap ℕ
  sess : ℕ → Session
  /-- Sessions created so far. -/
  allocated : ℕ
  /-- How often the server object was freed. -/
  freed : ℕ
  /-- An `assert` failed. -/
  aborted : Bool
  trace : List TraceEvent

namespace Server

def log (s : Server) (e : TraceEvent) : Server := { s with trace := s.trace ++ [e] }

def setSess (s : Server) (a : ℕ) (σ : Session) : Server :=
  { s with sess := Function.update s.sess a σ }

/-- A failed `assert`. -/
def abort (s : Server) : Server := { s with aborted := true }

/-! ## uthash -/

/-- `HASH_COUNT`. -/
def hashCount (s : Server) : ℕ := s.sessionMap.count

/-- `HASH_FIND_INT`. -/
def hashFindInt (s : Server) (serial : UInt32) : Option ℕ :=
  s.sessionMap.items.find? (fun a => (s.sess a).serial = serial)

/-- `HASH_ADD_INT(session_map, serial, session)`. -/
def hashAddInt (s : Server) (a : ℕ) : Server :=
  { s with sessionMap := s.sessionMap.add a }.log (.accept a (s.sess a).serial)

/-- `HASH_DEL`. -/
def hashDel (s : Server) (a : ℕ) : Server :=
  { s with sessionMap := s.sessionMap.del a }.log (.remove a)

/-- `el->hh.next`. -/
def hhNext (s : Server) (a : ℕ) : Option ℕ := s.sessionMap.next a

/-- `HASH_ITER(hh, session_map, session, tmp) { body }`. Every `next` pointer leads
to a session created later, so `allocated` rounds are enough (`hashIter_fuel`). -/
def hashIter (body : Server → ℕ → Server) (s : Server) : Server :=
  walk hhNext body s.allocated s s.sessionMap.items.head?
    (s.sessionMap.items.head?.bind s.hhNext)

/-! ## Sessions -/

/-- The search of `set_session_serial`, for at most `n` candidates: from
`next_serial` on, skipping 0, the first that is not a key of the map. -/
def setSessionSerialLoop (s : Server) : ℕ → UInt32 → Option UInt32
  | 0, _ => none
  | n + 1, serial =>
    let serial := if serial = 0 then serial + 1 else serial
    match s.hashFindInt serial with
    | none => some serial
    | some _ => setSessionSerialLoop s n (serial + 1)

/-- `set_session_serial`. One candidate more than there are sessions is enough
(`setSessionSerial_isSome`); `none` stands for a search that never ends. -/
def setSessionSerial (s : Server) (a : ℕ) : Option Server :=
  (s.setSessionSerialLoop (s.hashCount + 1) s.nextSerial).map fun serial =>
    { s.setSess a { s.sess a with serial := serial } with nextSerial := serial + 1 }

/-- `session_destroy`. -/
def sessionDestroy (s : Server) (a : ℕ) : Server :=
  (s.setSess a { s.sess a with handle := uvCloseOnce (uvStop (s.sess a).handle) }).log (.destroy a)

/-- `session_create`: the new session is number `allocated`. -/
def sessionCreate (s : Server) (now : UInt64) : Server :=
  { s.setSess s.allocated
      { Session.zero with
        handle := uvInit
        lastRecvTime := now
        bufSize := DEFAULT_RECV_BUF_SIZE
        recvBuf := qsfMalloc DEFAULT_RECV_BUF_SIZE.toNat } with
    allocated := s.allocated + 1 }

/-! ## The calls `on_read` may make back -/

/-- `qsf_net_server_stop`. -/
def qsfNetServerStop (s : Server) : Server :=
  let s := { s with stopped := true }
  let s := s.hashIter fun s a => (s.hashDel a).sessionDestroy a
  let s := { s with timer := uvStop s.timer }
  { s with timer := uvCloseOnce s.timer, acceptor := uvCloseOnce s.acceptor }

/-- `do_session_write` of the `size` bytes at `data`; `r` is the result of `uv_write`. -/
def doSessionWrite (s : Server) (a : ℕ) (data : List UInt8) (size : UInt16) (r : ℤ) :
    ℤ × Server :=
  if size = 0 then (0, s.abort)
  else if r < 0 then (r, s)
  else
    let frame := storeU16 (htons size) ++ data.take size.toNat
    (0, s.setSess a { s.sess a with out := (s.sess a).out ++ frame })

/-- `qsf_net_server_write`. -/
def qsfNetServerWrite (s : Server) (serial : UInt32) (data : List UInt8) (size : UInt16) (r : ℤ) :
    ℤ × Server :=
  if size = 0 then (0, s.abort)
  else match s.hashFindInt serial with
    | none => (-1, s)
    | some a => s.doSessionWrite a data size r

/-- `qsf_net_server_write_all`; `r a` is the result of `uv_write` on session `a`. -/
def qsfNetServerWriteAll (s : Server) (data : List UInt8) (size : UInt16) (r : ℕ → ℤ) : ℤ × Server :=
  if size = 0 then (0, s.abort)
  else (0, s.hashIter fun s a => (s.doSessionWrite a data size (r a)).2)

/-- `qsf_net_server_shutdown`; `r` is the result of `uv_shutdown`. -/
def qsfNetServerShutdown (s : Server) (serial : UInt32) (r : ℤ) : Server :=
  match s.hashFindInt serial with
  | none => s
  | some a =>
    let s := s.setSess a { s.sess a with handle := uvStop (s.sess a).handle }
    if r < 0 then s else s.setSess a { s.sess a with shut := true }

/-- `qsf_net_server_close`. -/
def qsfNetServerClose (s : Server) (serial : UInt32) : Server :=
  match s.hashFindInt serial with
  | none => s
  | some a => (s.hashDel a).sessionDestroy a

/-- `qsf_net_server_size`. -/
def qsfNetServerSize (s : Server) : ℕ := s.hashCount

end Server

/-- The results of the libuv calls in `qsf_net_server_start`. -/
structure StartResult where
  addr : ℤ
  bind : ℤ
  listen : ℤ
  timer : ℤ

/-- One of them failed. -/
def StartResult.Failed (r : StartResult) : Prop :=
  r.addr < 0 ∨ r.bind < 0 ∨ r.listen < 0 ∨ r.timer < 0

/-- A call of the server's API by a script, with the results of the libuv calls in it. -/
inductive Op
  | close (serial : UInt32)
  | stop
  | write (serial : UInt32) (data : List UInt8) (size : UInt16) (r : ℤ)
  | writeAll (data : List UInt8) (size : UInt16) (r : ℕ → ℤ)
  | shutdown (serial : UInt32) (r : ℤ)
  | size

/-- User code behind `on_read`: the calls it makes, given the report and the state. -/
abbrev Callback := Report → Server → List Op

namespace Server

def call (s : Server) : Op → Server
  | .close serial => s.qsfNetServerClose serial
  | .stop => s.qsfNetServerStop
  | .write serial data size r => (s.qsfNetServerWrite serial data size r).2
  | .writeAll data size r => (s.qsfNetServerWriteAll data size r).2
  | .shutdown serial r => s.qsfNetServerShutdown serial r
  | .size => s

/-- `server->on_read(err, serial, data, size, udata)`; `who` is the session reported. -/
def callOnRead (cb : Callback) (s : Server) (who : Option ℕ) (r : Report) : Server :=
  (cb r (s.log (.report who r))).foldl call (s.log (.report who r))

/-! ## Callbacks from the loop -/

/-- `on_session_alloc`: the offset and the length of the region offered. -/
def onSessionAlloc (s : Server) (a : ℕ) : Server × ℕ × ℕ :=
  let bytes := (s.sess a).recvBytes.toNat
  if (s.sess a).bodySize = 0 then
    if 2 < bytes then (s.abort, bytes, 0) else (s, bytes, 2 - bytes)
  else
    -- an `int` difference turned into a `size_t`
    (s, bytes, ((s.sess a).bodySize.toNat + 2 ^ 64 - bytes) % 2 ^ 64)

/-- The report of a read error or an end of file. -/
def errorReport (nread : ℤ) (serial : UInt32) : Report := ⟨nread, serial, .uvStrerror nread⟩

/-- The report of a complete body. -/
def dataReport (serial : UInt32) (body : List Cell) : Report := ⟨0, serial, .body body⟩

def timeoutReport (serial : UInt32) : Report := ⟨NET_ERR_TIMEOUT, serial, .text "session timeout"⟩

def limitReport : Report := ⟨NET_ERR_CONN_LIMIT, 0, .text "max connection count limit"⟩

/-- `on_session_read`. -/
def onSessionRead (cb : Callback) (s : Server) (a : ℕ) (now : UInt64) (nread : ℤ) : Server :=
  if nread ≤ 0 then
    if nread < 0 then
      ((s.callOnRead cb (some a) (errorReport nread (s.sess a).serial)).hashDel a).sessionDestroy a
    else s
  else
    match (s.sess a).fill now nread with
    | (σ, none) => s.setSess a σ
    | (σ, some body) => (s.setSess a σ).callOnRead cb (some a) (dataReport σ.serial body)

/-- One read of a session as libuv runs it: ask for a buffer, copy the bytes into it,
call `on_session_read`. -/
def sessionRead (cb : Callback) (s : Server) (a : ℕ) (now : UInt64) (r : ReadResult) : Server :=
  let (s, base, _) := s.onSessionAlloc a
  let s := s.setSess a { s.sess a with recvBuf := storeAt (s.sess a).recvBuf base r.bytes }
  s.onSessionRead cb a now r.nread

/-- `on_connection`. `acc`, `peer` and `rd` are the results of `uv_accept`,
`uv_tcp_getpeername` and `uv_read_start`. -/
def onConnection (cb : Callback) (s : Server) (err : ℤ) (now : UInt64) (acc peer rd : ℤ) : Server :=
  if err ≠ 0 then s
  else if ¬ s.onRead then s.abort
  else if s.stopped then s
  else if s.maxConnection.toNat ≤ s.hashCount then s.callOnRead cb none limitReport
  else
    let a := s.allocated
    let s := s.sessionCreate now
    let s := { s with pending := false }
    if acc < 0 then s.sessionDestroy a
    else if peer < 0 then s.sessionDestroy a
    else if rd < 0 then s.sessionDestroy a
    else
      let s := s.setSess a { s.sess a with handle := uvStart (s.sess a).handle }
      match s.setSessionSerial a with
      | none => s
      | some s => s.hashAddInt a

/-- `now - last_recv_time > max_heart_beat * 1000`. -/
def expired (s : Server) (now : UInt64) (a : ℕ) : Bool :=
  now - (s.sess a).lastRecvTime > UInt64.ofNat (s.maxHeartBeat.toNat * 1000)

/-- The body of the sweep in `hearbeat_timer_cb`. -/
def sweepBody (cb : Callback) (now : UInt64) (s : Server) (a : ℕ) : Server :=
  if s.expired now a then
    ((s.callOnRead cb (some a) (timeoutReport (s.sess a).serial)).hashDel a).sessionDestroy a
  else s

/-- `hearbeat_timer_cb`. -/
def hearbeatTimerCb (cb : Callback) (s : Server) (now : UInt64) : Server :=
  s.hashIter (sweepBody cb now)

/-! ## Creating, starting, destroying -/

/-- `qsf_create_net_server`. -/
def qsfCreateNetServer (maxConnection : UInt32) (maxHeartBeat heartBeatCheck : UInt16) : Server where
  maxConnection := maxConnection
  maxHeartBeat := maxHeartBeat
  heartBeatCheck := heartBeatCheck
  stopped := false
  nextSerial := START_SERIAL_NUMBER
  onRead := false
  acceptor := uvInit
  pending := false
  timer := uvInit
  timerRepeat := 0
  sessionMap := IMap.empty
  sess := fun _ => Session.zero
  allocated := 0
  freed := 0
  aborted := false
  trace := []

/-- `qsf_net_server_start`. -/
def qsfNetServerStart (s : Server) (r : StartResult) : ℤ × Server :=
  let s := { s with onRead := true }
  if r.addr < 0 then (r.addr, s)
  else if r.bind < 0 then (r.bind, s)
  else if r.listen < 0 then (r.listen, s)
  else
    let s := { s with acceptor := uvStart s.acceptor }
    if r.timer < 0 then (r.timer, s)
    else (0, { s with
      timer := uvStart s.timer
      timerRepeat := UInt64.ofNat (s.heartBeatCheck.toNat * 1000) })

/-- `qsf_net_server_destroy`. -/
def qsfNetServerDestroy (s : Server) : Server :=
  { s.qsfNetServerStop with freed := s.freed + 1 }

/-- The closing phase of one loop turn. -/
def loopTurn (s : Server) : Server :=
  { s with
    acceptor := uvTurn s.acceptor
    timer := uvTurn s.timer
    sess := fun a => (s.sess a).turn }

end Server

/-! ## The server in its loop -/

/-- What the loop or a script may do to a server. -/
inductive Input
  | start (r : StartResult)
  | connection (err : ℤ) (now : UInt64) (acc peer rd : ℤ)
  | read (a : ℕ) (now : UInt64) (r : ReadResult)
  | tick (now : UInt64)
  | op (o : Op)
  | turn

/-- An input, and how the user code behind `on_read` behaves while it is handled. -/
structure Event where
  input : Input
  cb : Callback

/-- An event during which the user code makes no call. -/
def Event.quiet (i : Input) : Event := ⟨i, fun _ _ => []⟩

/-- A server is started and takes its first connection. -/
def accepting : List Event := [.quiet (.start ⟨0, 0, 0, 0⟩), .quiet (.connection 0 0 0 0 0)]

/-- What libuv promises: connections are reported on a listening server, reads only
between `uv_read_start` and `uv_read_stop`, with no more bytes than `on_session_alloc`
offered; the timer only fires while it is started. -/
def Server.enabled (s : Server) (e : Event) : Prop :=
  match e.input with
  | .connection _ _ _ _ _ => s.onRead = true
  | .read a _ (.data bytes) =>
    (s.sess a).handle.active = true ∧ bytes.length ≤ (s.onSessionAlloc a).2.2
  | .read a _ (.error code) => (s.sess a).handle.active = true ∧ code < 0
  | .tick _ => s.timer.active = true
  | _ => True

/-- One event. A one-shot timer is stopped before its callback runs. -/
def Server.step (s : Server) (e : Event) : Server :=
  match e.input with
  | .start r => (s.qsfNetServerStart r).2
  | .connection err now acc peer rd =>
    let s := if err = 0 then { s with pending := true } else s
    s.onConnection e.cb err now acc peer rd
  | .read a now r => s.sessionRead e.cb a now r
  | .tick now =>
    let s := if s.timerRepeat = 0 then { s with timer := uvStop s.timer } else s
    s.hearbeatTimerCb e.cb now
  | .op o => s.call o
  | .turn => s.loopTurn

/-- A server from `qsf_create_net_server` on. -/
def netServer : Machine Server Event where
  init s := ∃ maxConnection maxHeartBeat heartBeatCheck,
    s = Server.qsfCreateNetServer maxConnection maxHeartBeat heartBeatCheck
  enabled := Server.enabled
  step := Server.step

end Qsf
