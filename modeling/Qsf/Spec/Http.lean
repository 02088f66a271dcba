import Qsf.Spec.LuaString
import Qsf.Spec.Ltn12

/-!
# HTTP connections (`lib/socket/http.lua`, `lib/socket/headers.lua`, `lib/socket.lua`)

Request lines, headers and bodies. `Sock` is a connection of LuaSocket, which is not part of the
repository. An error that `try` raises is raised here. Left out are proxies, the choice of the headers,
the closing of a connection whose response was read to its end, and numerals that are no integers.
-/

set_option autoImplicit false

namespace Qsf

/-- What the scripts call of a connection in state `σ`. -/
structure Sock (σ : Type) where
  receiveLine : σ → LuaRun (Except String (List UInt8) × σ)
  /-- `sock:receive(n)`; with an error comes what was received. -/
  receive : ℕ → σ → LuaRun (Except (String × List UInt8) (List UInt8) × σ)
  send : List UInt8 → σ → LuaRun ((Bool × Option String) × σ)
  close : σ → LuaRun σ

def CRLF : List UInt8 := [13, 10]

/-- An error of the pattern library. -/
def LuaRaise.text : LuaRaise → String
  | .badArg _ msg => msg
  | .error fmt _ => fmt
  | .stackOverflow msg => msg

def ofPattern {α : Type} : Except LuaRaise α → LuaRun α
  | .ok a => return a
  | .error e => throw e.text

variable {σ α β : Type} (sock : Sock σ)

/-! ## Headers -/

/-- `headers.canonic`. -/
def canonic : List (String × String) :=
  [("accept", "Accept"), ("accept-charset", "Accept-Charset"), ("accept-encoding", "Accept-Encoding"),
    ("accept-language", "Accept-Language"), ("accept-ranges", "Accept-Ranges"), ("action", "Action"),
    ("alternate-recipient", "Alternate-Recipient"), ("age", "Age"), ("allow", "Allow"),
    ("arrival-date", "Arrival-Date"), ("authorization", "Authorization"), ("bcc", "Bcc"),
    ("cache-control", "Cache-Control"), ("cc", "Cc"), ("comments", "Comments"),
    ("connection", "Connection"), ("content-description", "Content-Description"),
    ("content-disposition", "Content-Disposition"), ("content-encoding", "Content-Encoding"),
    ("content-id", "Content-ID"), ("content-language", "Content-Language"),
    ("content-length", "Content-Length"), ("content-location", "Content-Location"),
    ("content-md5", "Content-MD5"), ("content-range", "Content-Range"),
    ("content-transfer-encoding", "Content-Transfer-Encoding"), ("content-type", "Content-Type"),
    ("cookie", "Cookie"), ("date", "Date"), ("diagnostic-code", "Diagnostic-Code"),
    ("dsn-gateway", "DSN-Gateway"), ("etag", "ETag"), ("expect", "Expect"), ("expires", "Expires"),
    ("final-log-id", "Final-Log-ID"), ("final-recipient", "Final-Recipient"), ("from", "From"),
    ("host", "Host"), ("if-match", "If-Match"), ("if-modified-since", "If-Modified-Since"),
    ("if-none-match", "If-None-Match"), ("if-range", "If-Range"),
    ("if-unmodified-since", "If-Unmodified-Since"), ("in-reply-to", "In-Reply-To"),
    ("keywords", "Keywords"), ("last-attempt-date", "Last-Attempt-Date"),
    ("last-modified", "Last-Modified"), ("location", "Location"), ("max-forwards", "Max-Forwards"),
    ("message-id", "Message-ID"), ("mime-version", "MIME-Version"),
    ("original-envelope-id", "Original-Envelope-ID"), ("original-recipient", "Original-Recipient"),
    ("pragma", "Pragma"), ("proxy-authenticate", "Proxy-Authenticate"),
    ("proxy-authorization", "Proxy-Authorization"), ("range", "Range"), ("received", "Received"),
    ("received-from-mta", "Received-From-MTA"), ("references", "References"), ("referer", "Referer"),
    ("remote-mta", "Remote-MTA"), ("reply-to", "Reply-To"), ("reporting-mta", "Reporting-MTA"),
    ("resent-bcc", "Resent-Bcc"), ("resent-cc", "Resent-Cc"), ("resent-date", "Resent-Date"),
    ("resent-from", "Resent-From"), ("resent-message-id", "Resent-Message-ID"),
    ("resent-reply-to", "Resent-Reply-To"), ("resent-sender", "Resent-Sender"),
    ("resent-to", "Resent-To"), ("retry-after", "Retry-After"), ("return-path", "Return-Path"),
    ("sender", "Sender"), ("server", "Server"), ("smtp-remote-recipient", "SMTP-Remote-Recipient"),
    ("status", "Status"), ("subject", "Subject"), ("te", "TE"), ("to", "To"), ("trailer", "Trailer"),
    ("transfer-encoding", "Transfer-Encoding"), ("upgrade", "Upgrade"), ("user-agent", "User-Agent"),
    ("vary", "Vary"), ("via", "Via"), ("warning", "Warning"), ("will-retry-until", "Will-Retry-Until"),
    ("www-authenticate", "WWW-Authenticate"), ("x-mailer", "X-Mailer")]

/-- `canonic[f] or f`. -/
def canonicName (f : List UInt8) : List UInt8 :=
  match canonic.find? fun p => str p.1 = f with
  | some p => str p.2
  | none => f

/-- What `sendheaders` sends, for the fields in the order of `pairs`. -/
def headersText (tosend : List (List UInt8 × List UInt8)) : List UInt8 :=
  tosend.foldl (fun h fv => canonicName fv.1 ++ str ": " ++ fv.2 ++ CRLF ++ h) CRLF

/-- The fields of a table with string keys. -/
abbrev Headers := List UInt8 → Option (List UInt8)

/-- Folded lines are added to the value; the line after them is returned too. -/
def unfoldLines (value line : List UInt8) (s : σ) : LuaRun ((List UInt8 × List UInt8) × σ) :=
  luaLoop id (fun ((value, line), s) => do
    if (← ofPattern (stringFind line (str "^%s") 1)).isSome then
      let (r, s) ← sock.receiveLine s
      match r with
      | .error _ => throw "bad argument #1 to 'find' (string expected, got nil)" -- line is nil
      | .ok next => return .inl ((value ++ line, next), s)
    else return .inr ((value, line), s)) ((value, line), s)

/-- The loop of `receiveheaders`; `headers` may be a number instead of a table. -/
def headersLoop (headers : Option Headers) (line : List UInt8) (s : σ) :
    LuaRun (Except String (Option Headers) × σ) :=
  luaLoop (fun (headers, _, s) => (.ok headers, s)) (fun (headers, line, s) => do
    if line = [] then return .inr (.ok headers, s)
    else
      match ← ofPattern (stringFind line (str "^(.-):%s*(.*)") 1) with
      | some ⟨_, _, [.string name, .string value]⟩ =>
        let (r, s) ← sock.receiveLine s
        match r with
        | .error err => return .inr (.error err, s)
        | .ok line =>
          let ((value, line), s) ← unfoldLines sock value line s
          match headers with
          | none => throw "attempt to index a number value"
          | some headers =>
            let name := name.map tolower
            let value := match headers name with
              | some old => old ++ str ", " ++ value
              | none => value
            return .inl (some (Function.update headers name (some value)), line, s)
      | _ => return .inr (.error "malformed reponse headers", s)) (headers, line, s)

/-- `receiveheaders`. -/
def receiveheaders (headers : Option Headers) (s : σ) : LuaRun (Except String (Option Headers) × σ) := do
  let (r, s) ← sock.receiveLine s
  match r with
  | .error err => return (.error err, s)
  | .ok line => headersLoop sock headers line s

/-! ## Bodies -/

/-- `socket.sinkt["http-chunked"]`. -/
def sinkHttpChunked : Sink σ := fun s chunk _ =>
  match chunk with
  | none => sock.send (str "0" ++ CRLF ++ CRLF) s
  | some chunk => sock.send (formatX chunk.length ++ CRLF ++ chunk ++ CRLF) s

/-- `socket.sinkt["keep-open"]`. -/
def sinkKeepOpen : Sink σ := fun s chunk _ =>
  match chunk with
  | none => return ((true, none), s)
  | some chunk => sock.send chunk s

/-- `socket.sinkt["close-when-done"]`. -/
def sinkCloseWhenDone : Sink σ := fun s chunk _ => do
  match chunk with
  | none => return ((true, none), ← sock.close s)
  | some chunk => sock.send chunk s

/-- The size of a chunk: `tonumber(string.gsub(line, ";.*", ""), 16)`. -/
def chunkSize (line : List UInt8) : LuaRun (Option Int64) := do
  let (line, _) ← ofPattern (stringGsub line (fun u _ => (some [], u)) (str ";.*") ())
  return tonumberBase line 16

/-- `socket.sourcet["http-chunked"]`; the upvalue is `headers`. -/
def sourceHttpChunked : Source (σ × Option Headers) := fun (s, headers) => do
  let (r, s) ← sock.receiveLine s
  match r with
  | .error err => return ((none, some err), (s, headers))
  | .ok line =>
    match ← chunkSize line with
    | none => return ((none, some "invalid chunk size"), (s, headers))
    | some size =>
      if 0 < size then
        let (r, s) ← sock.receive size.toInt.toNat s
        match r with
        | .error (err, _) => return ((none, some err), (s, headers))
        | .ok chunk =>
          let (_, s) ← sock.receiveLine s
          return ((some chunk, none), (s, headers))
      else
        let (r, s) ← receiveheaders sock headers s
        match r with
        | .error err => return ((none, some err), (s, none))
        | .ok headers => return ((none, none), (s, headers))

/-- `socket.sourcet["by-length"]`; the upvalue is `length`. -/
def sourceByLength : Source (σ × ℤ) := fun (s, length) => do
  if length ≤ 0 then return ((none, none), (s, length))
  else
    let (r, s) ← sock.receive (min BLOCKSIZE length.toNat) s
    match r with
    | .error (err, _) => return ((none, some err), (s, length))
    | .ok chunk => return ((some chunk, none), (s, length - chunk.length))

/-- `socket.sourcet["until-closed"]`; the upvalue is `done`. -/
def sourceUntilClosed : Source (σ × Bool) := fun (s, done) => do
  if done then return ((none, none), (s, done))
  else
    let (r, s) ← sock.receive BLOCKSIZE s
    match r with
    | .ok chunk => return ((some chunk, none), (s, done))
    | .error (err, part) =>
      if err = "closed" then return ((some part, none), (← sock.close s, true))
      else return ((none, some err), (s, done))

/-! ## Messages -/

/-- `receivestatusline`: the code and the line, or what an HTTP/0.9 server sent. -/
def receivestatusline (s : σ) : LuaRun (Except (List UInt8) (ℤ × List UInt8) × σ) := do
  let (r, s) ← sock.receive 5 s
  match r with
  | .error (err, _) => throw err
  | .ok status =>
    if status ≠ str "HTTP/" then return (.error status, s)
    else
      let (r, s) ← sock.receiveLine s
      match r with
      | .error err => throw err
      | .ok line =>
        let status := status ++ line -- receive("*l", status)
        match ← ofPattern (stringFind status (str "HTTP/%d*%.%d* (%d%d%d)") 1) with
        | some ⟨_, _, [.string code]⟩ =>
          match lStr2int code with
          | some n => return (.ok (n.toInt, status), s)
          | none => throw (String.ofList (status.map fun c => Char.ofNat c.toNat))
        | _ => throw (String.ofList (status.map fun c => Char.ofNat c.toNat)) -- try(nil, status)

/-- `receivebody`, with the default step. -/
def receivebody (headers : Headers) (sink : Sink β) (s : σ) (b : β) : LuaRun (σ × β) := do
  let length := (headers (str "content-length")).bind lStr2int
  let t := headers (str "transfer-encoding")
  let finish (r : Bool × Option String) (s : σ) (b : β) : LuaRun (σ × β) :=
    if r.1 then return (s, b) else throw (r.2.getD "")
  if t.isSome ∧ t ≠ some (str "identity") then
    let trailers := if length.isSome then none else some fun _ => none
    let (r, ((s, _), b)) ← pumpAll (sourceHttpChunked sock) sink ((s, trailers), b)
    finish r s b
  else
    match length with
    | some length =>
      let (r, ((s, _), b)) ← pumpAll (sourceByLength sock) sink ((s, length.toInt), b)
      finish r s b
    | none =>
      let (r, ((s, _), b)) ← pumpAll (sourceUntilClosed sock) sink ((s, false), b)
      finish r s b

/-- What decides about a response, of a request. -/
structure Request where
  method : Option (List UInt8)
  /-- Whether there is a body to send. -/
  source : Bool
  /-- `redirect ~= false`. -/
  redirect : Bool
  nredirects : ℕ

/-- `shouldredirect`; `code` may be nil. -/
def shouldredirect (reqt : Request) (code : Option ℤ) (headers : Headers) : LuaRun Bool := do
  match headers (str "location") with
  | none => return false
  | some location =>
    let (s, _) ← ofPattern (stringGsub location (fun u _ => (some [], u)) (str "%s") ())
    return s ≠ [] ∧ reqt.redirect ∧ (code = some 301 ∨ code = some 302 ∨ code = some 303 ∨ code = some 307) ∧
      (reqt.method = none ∨ reqt.method = some (str "GET") ∨ reqt.method = some (str "HEAD")) ∧ reqt.nredirects < 5

/-- `shouldreceivebody`; `code` may be nil. -/
def shouldreceivebody (reqt : Request) (code : Option ℤ) : LuaRun Bool :=
  if reqt.method = some (str "HEAD") ∨ code = some 204 ∨ code = some 304 then return false
  else
    match code with
    | none => throw "attempt to compare number with nil"
    | some code => return ¬ (100 ≤ code ∧ code < 200)

/-- What `trequest` returns of a response. -/
structure Response where
  code : Option ℤ
  headers : Headers
  status : List UInt8

/-- `receiveheaders` of a connection, which raises its errors. -/
def tryHeaders (s : σ) : LuaRun (Headers × σ) := do
  match ← receiveheaders sock (some fun _ => none) s with
  | (.error err, _) => throw err
  | (.ok none, _) => throw "attempt to index a number value"
  | (.ok (some headers), s) => return (headers, s)

/-- `while code == 100`: messages that say to continue are skipped. -/
def skipContinue (code : Option ℤ) (status : List UInt8) (s : σ) : LuaRun ((Option ℤ × List UInt8) × σ) :=
  luaLoop id (fun ((code, status), s) => do
    if code = some 100 then
      let (_, s) ← tryHeaders sock s
      match ← receivestatusline sock s with
      | (.error status, s) => return .inl ((none, status), s)
      | (.ok (code, status), s) => return .inl ((some code, status), s)
    else return .inr ((code, status), s)) ((code, status), s)

/-- The part of `trequest` that reads the response, or closes the connection and returns where to look
instead. An HTTP/0.9 server sends no more than a body. -/
def receiveResponse (reqt : Request) (sink : Sink β) (s : σ) (b : β) :
    LuaRun ((List UInt8 ⊕ Response) × (σ × β)) := do
  match ← receivestatusline sock s with
  | (.error status, s) =>
    -- `receive09body`
    let (r, ((_, (s, _)), b)) ←
      pumpAll (sourceRewind (sourceUntilClosed sock) none) sink (([status], (s, false)), b)
    if r.1 then return (.inr ⟨some 200, fun _ => none, []⟩, (s, b)) else throw (r.2.getD "")
  | (.ok (code, status), s) =>
    let ((code, status), s) ← skipContinue sock (some code) status s
    let (headers, s) ← tryHeaders sock s
    if (← shouldredirect reqt code headers) ∧ ¬ reqt.source then
      return (.inl ((headers (str "location")).getD []), (← sock.close s, b))
    else if ← shouldreceivebody reqt code then
      let (s, b) ← receivebody sock headers sink s b
      return (.inr ⟨code, headers, status⟩, (s, b))
    else return (.inr ⟨code, headers, status⟩, (s, b))

end Qsf
