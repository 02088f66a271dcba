import Qsf.Spec.Http

/-!
# The client of a Redis server (`lib/redis.lua`)

Requests, replies, commands and pipelines. What raises an error keeps what it did to the connection
until then, as a script sees behind `pcall`. The position in the source that Lua puts in front of the
message of an error is left out, and so are numerals that are no integers.
-/

set_option autoImplicit false

namespace Qsf

/-- A script that may raise an error, in state `σ`. -/
abbrev RedisRun (σ : Type) := ExceptT (List UInt8) (StateT σ Option)

/-- What a reply is for the script; a list may have nil in it. -/
inductive RedisValue
  | nil
  | bool (b : Bool)
  | string (s : List UInt8)
  | integer (n : Int64)
  /-- `{ queued = true }`. -/
  | queued
  | list (l : List RedisValue)

/-- An argument of a command. -/
inductive RedisArg
  | string (s : List UInt8)
  | integer (n : Int64)
  | bool (b : Bool)

/-- `tostring(arg or '')`. -/
def RedisArg.tostring : RedisArg → List UInt8
  | .string s => s
  | .integer n => formatInt n.toInt
  | .bool true => str "true"
  | .bool false => []

/-- `client.network`. -/
structure ClientNetwork (σ : Type) where
  read : Option ℤ → RedisRun σ (List UInt8)
  write : List UInt8 → RedisRun σ Unit
  /-- How deep calls of `response.read` fit on the stack. -/
  stack : ℕ

variable {σ : Type}

/-- A call of LuaSocket, whose own errors are raised too. -/
def sockCall {α : Type} (f : σ → LuaRun (α × σ)) : RedisRun σ α := fun s =>
  match f s with
  | none => none
  | some (.error e) => some (.error (str e), s)
  | some (.ok (a, s)) => some (.ok a, s)

/-- `network.read` and `network.write`, for a connection. -/
def network (sock : Sock σ) (stack : ℕ) : ClientNetwork σ where
  stack := stack
  read
    | none => do
      match ← sockCall sock.receiveLine with
      | .ok line => return line
      | .error err => throw (str "connection error: " ++ str err)
    | some len => do
      if len < 0 then throw (str "bad argument #1 to 'receive' (invalid receive pattern)")
      else
        match ← sockCall (sock.receive len.toNat) with
        | .ok data => return data
        | .error (err, _) => throw (str "connection error: " ++ str err)
  write buffer := do
    match ← sockCall (sock.send buffer) with
    | (_, some err) => throw (str err)
    | (_, none) => return

variable (net : ClientNetwork σ)

/-- The loop over the elements of a list. -/
def readList (reader : RedisRun σ RedisValue) : ℕ → RedisRun σ (List RedisValue)
  | 0 => return []
  | count + 1 => do
    let r ← reader
    let rs ← readList reader count
    return r :: rs

/-- The body of `response.read`, which calls `reader`. -/
def responseBody (reader : RedisRun σ RedisValue) : RedisRun σ RedisValue := do
  match ← net.read none with
  | [] => throw (str "unknown response prefix: ")
  | c :: data =>
    if c = ch '+' then
      if data = str "OK" then return .bool true
      else if data = str "QUEUED" then return .queued
      else return .string data
    else if c = ch '-' then throw (str "redis error: " ++ data)
    else if c = ch ':' then
      match lStr2int data with
      | some number => return .integer number
      | none =>
        if data = str "nil" then return .nil
        else throw (str "cannot parse " ++ data ++ str " as a numeric response.")
    else if c = ch '$' then
      match lStr2int data with
      | none => throw (str "attempt to concatenate a nil value (local 'length')")
      | some length =>
        if length = -1 then return .nil
        else
          let nextchunk ← net.read (some (length + 2).toInt)
          return .string (nextchunk.take (nextchunk.length - 2))
    else if c = ch '*' then
      match lStr2int data with
      | none => throw (str "attempt to compare number with nil")
      | some count =>
        if count = -1 then return .nil
        else return .list (← readList reader count.toInt.toNat)
    else throw (str "unknown response prefix: " ++ [c])

/-- `response.read`, which may call itself this deep. -/
def responseReadIn : ℕ → RedisRun σ RedisValue
  | 0 => responseBody net (throw (str "stack overflow"))
  | calls + 1 => responseBody net (responseReadIn calls)

/-- `response.read`. -/
def responseRead : RedisRun σ RedisValue := responseReadIn net net.stack

/-- An element of a request. -/
def bulkText (s : List UInt8) : List UInt8 := ch '$' :: formatBase 10 s.length ++ CRLF ++ s ++ CRLF

/-- The text of a request. -/
def multibulkText (command : List UInt8) (args : List (List UInt8)) : List UInt8 :=
  ch '*' :: formatBase 10 (args.length + 1) ++ CRLF ++ bulkText command ++ (args.map bulkText).flatten

/-- `request.multibulk`, for several arguments or one table of them. -/
def multibulk (command : List UInt8) (args : List RedisArg) : RedisRun σ Unit :=
  net.write (multibulkText command (args.map RedisArg.tostring))

/-! ## Commands -/

variable {α : Type}

/-- What makes a value of a reply. It gets the command and the arguments too, but not in a pipeline. -/
abbrev ReplyParser (α : Type) :=
  RedisValue → Option (List UInt8 × α) → Except (List UInt8) RedisValue

/-- A command that takes arguments of type `α`. -/
structure Command (α : Type) where
  command : List UInt8
  /-- The arguments that are sent. -/
  request : α → List RedisArg
  parse : Option (ReplyParser α)

/-- What a command returns: a value, or a queued reply with its parser. -/
inductive CommandReply (α : Type)
  | value (v : RedisValue)
  | queued (parser : Option (ReplyParser α))

/-- The function that `custom` makes of a command. -/
def Command.call (c : Command α) (args : α) : RedisRun σ (CommandReply α) := do
  multibulk net c.command (c.request args)
  match ← responseRead net with
  | .queued => return .queued c.parse
  | reply =>
    match c.parse with
    | none => return .value reply
    | some parse => return .value (← liftExcept (parse reply (some (c.command, args))))

/-- What `table.insert` raises, which is called by the name of a local here. -/
def outOfBounds : List UInt8 := str "bad argument #2 to 'table_insert' (position out of bounds)"

/-- `table.insert(t, pos, v)`, where `v` is nil behind the end only. -/
def tableInsert {β : Type} (t : List β) (pos : ℕ) (v : Option β) : Except (List UInt8) (List β) :=
  if 1 ≤ pos ∧ pos ≤ t.length + 1 then .ok (t.take (pos - 1) ++ v.toList ++ t.drop (pos - 1))
  else .error outOfBounds

/-! ## Pipelines -/

/-- The network of a client while its pipeline is filled; its state is `requests`. -/
def queueNetwork (stack : ℕ) : ClientNetwork (List (List UInt8)) where
  stack := stack
  read _ := return str "+QUEUED"
  write buffer := modify (· ++ [buffer])

/-- The calls of commands in the block. -/
def pipelineQueue (stack : ℕ) :
    List (Command α × α) → List (ReplyParser α) → RedisRun (List (List UInt8)) (List (ReplyParser α))
  | [], parsers => return parsers
  | (c, args) :: calls, parsers => do
    match ← c.call (queueNetwork stack) args with
    | .queued parser =>
      let requests ← get
      let parsers ← liftExcept (tableInsert parsers requests.length parser)
      pipelineQueue stack calls parsers
    | .value _ => throw (str "attempt to index a value") -- never: all replies are queued

/-- `reply`, unless it is nil. -/
def RedisValue.entry : RedisValue → Option RedisValue
  | .nil => none
  | v => some v

/-- `if parser then reply = parser(reply) end`. -/
def parsedReply (parser : Option (ReplyParser α)) (reply : RedisValue) : Except (List UInt8) RedisValue :=
  match parser with
  | none => .ok reply
  | some parser => parser reply none

/-- The loop over the replies, of which `i - 1` have been read. -/
def pipelineReplies (parsers : List (ReplyParser α)) (i : ℕ) (replies : List RedisValue) :
    ℕ → RedisRun σ (List RedisValue)
  | 0 => return replies
  | left + 1 => do
    let reply ← responseRead net
    let reply ← liftExcept (parsedReply parsers[i - 1]? reply)
    let replies ← liftExcept (tableInsert replies i reply.entry)
    pipelineReplies parsers (i + 1) replies left

/-- `client:pipeline(block)`. -/
def pipeline (calls : List (Command α × α)) : RedisRun σ (List RedisValue × ℕ) :=
  match pipelineQueue net.stack calls [] [] with
  | none => fun _ => none
  | some (.error retval, _) => throw retval
  | some (.ok parsers, requests) => do
    net.write requests.flatten
    return (← pipelineReplies net parsers 1 [] requests.length, requests.length)

end Qsf
