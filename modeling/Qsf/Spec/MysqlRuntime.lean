import Qsf.Lib.Machine
import Qsf.Spec.LuaNet
import Qsf.Spec.Mysql

/-!
# Connections and cursors as objects (`lualib/lua_mysql.c`)

A script creates connections, executes statements and reads the results through cursors, in
any order; the collector runs the finalizers `conn_gc` and `cursor_gc`, and a script may call
them too. An object is used after its finalizer was run when another finalizer still has it.
`lua_close` is left out.

Connections, cursors and results are numbered in the order of their creation. `freed` counts
the calls of `mysql_free_result` with each result, and `unrefs` the calls of `luaL_unref` with
the reference of each cursor; both are read by theorems only. What libmysql answers is decided
by the environment, and so is whether Lua runs out of memory while `fetchAll` builds a row.
-/

set_option autoImplicit false

namespace Qsf

/-- `Connection`. -/
structure Connection where
  closed : Bool
  collected : Bool          -- its finalizer was run by the collector

/-- A `Cursor` in its userdata. -/
structure CursorObject where
  cur : Cursor
  res : ℕ                   -- the result that it was created for
  owner : ℕ                 -- the connection
  unrefs : ℕ
  finalized : Bool

structure MysqlRuntime where
  conns : ℕ → Connection
  connCount : ℕ
  cursors : ℕ → CursorObject
  cursorCount : ℕ
  registry : Registry
  results : ℕ
  freed : ℕ → ℕ

/-- What libmysql answers to a statement. -/
structure QueryReply where
  err : ℤ                   -- of `mysql_real_query`
  res : Option MysqlRes     -- of `mysql_store_result` or `mysql_use_result`
  numcols : ℕ               -- of `mysql_field_count`
  affectedRows : ℤ          -- of `mysql_affected_rows`

/-- What `conn_execute` returns. -/
inductive ExecuteResult
  | cursor (i : ℕ)
  | affectedRows (n : ℤ)
  | nothing

/-- `(fetch_opt) "store"` or `"use"`. -/
def fetchAllOpt : Option (List UInt8) → Bool
  | none => true
  | some opt =>
    if cstr opt = [115, 116, 111, 114, 101] then true
    else if cstr opt = [117, 115, 101] then false
    else true

namespace MysqlRuntime

/-- A new Lua state. -/
def init : MysqlRuntime where
  conns := fun _ => ⟨true, false⟩
  connCount := 0
  cursors := fun _ => ⟨⟨LUA_NOREF, false, 0, none, none, nofun⟩, 0, 0, 0, false⟩
  cursorCount := 0
  registry := RefPool.init 3
  results := 0
  freed := fun _ => 0

/-- Another state of cursor `i`. -/
def setCursor (w : MysqlRuntime) (i : ℕ) (cur : Cursor) : MysqlRuntime :=
  { w with cursors := Function.update w.cursors i { w.cursors i with cur := cur } }

/-! ## Connections -/

/-- `conn_create`, where `mysql_init` succeeds. -/
def connCreate (w : MysqlRuntime) : MysqlRuntime :=
  { w with conns := Function.update w.conns w.connCount ⟨false, false⟩, connCount := w.connCount + 1 }

/-- `conn_close`. -/
def connClose (w : MysqlRuntime) (c : ℕ) : MysqlRuntime :=
  { w with conns := Function.update w.conns c { w.conns c with closed := true } }

/-- `conn_gc`, run by the collector. -/
def connGc (w : MysqlRuntime) (c : ℕ) : MysqlRuntime :=
  let w := w.connClose c
  { w with conns := Function.update w.conns c { w.conns c with collected := true } }

/-- `create_cursor`. -/
def createCursor (w : MysqlRuntime) (c : ℕ) (res : MysqlRes) (numcols : ℕ) (fetchAll : Bool) :
    ℕ × MysqlRuntime :=
  let (ref, registry) := luaLRef w.registry (.userdata c)
  (w.cursorCount, { w with
    registry := registry
    cursors := Function.update w.cursors w.cursorCount
      ⟨Cursor.create ref res numcols fetchAll, w.results, c, 0, false⟩
    cursorCount := w.cursorCount + 1
    results := w.results + 1 })

section

-- what Lua converts to a string, besides strings
variable (toLstring : LuaValue → Option (List UInt8))

/-- `conn_execute` of connection `c`, with the arguments behind it. -/
def connExecute (w : MysqlRuntime) (c : ℕ) (stmt fetchOpt : LuaValue) (reply : QueryReply) :
    Except LuaRaise ExecuteResult × MysqlRuntime :=
  if (w.conns c).closed then (.error (.badArg 1 "invalid Connection object"), w)
  else
    match luaTolstring toLstring stmt with
    | none => (.error (.badArg 2 "string expected"), w)
    | some _ =>
      let fetchAll := fetchAllOpt (luaTolstring toLstring fetchOpt)
      if reply.err ≠ 0 then (.error (.error "%d: %s\n" reply.err), w)
      else
        match reply.res with
        | some res =>
          let (i, w) := w.createCursor c res reply.numcols fetchAll
          (.ok (.cursor i), w)
        | none =>
          if reply.numcols = 0 then (.ok (.affectedRows reply.affectedRows), w)
          else (.ok .nothing, w)

end

/-! ## Cursors -/

/-- `cursor_nullify`. -/
def cursorNullify (w : MysqlRuntime) (i : ℕ) : MysqlRuntime :=
  let o := w.cursors i
  let (registry, cur) := o.cur.nullify w.registry
  { w with
    registry := registry
    cursors := Function.update w.cursors i
      { o with cur := cur, unrefs := if o.cur.conn = LUA_NOREF then o.unrefs else o.unrefs + 1 }
    freed := if o.cur.myRes.isSome then Function.update w.freed o.res (w.freed o.res + 1) else w.freed }

/-- `cursor_gc`. -/
def cursorGc (w : MysqlRuntime) (i : ℕ) : MysqlRuntime :=
  let w := w.cursorNullify i
  { w with cursors := Function.update w.cursors i { w.cursors i with finalized := true } }

/-- `cursor_numrows`; `rows` is the result of `mysql_num_rows`. -/
def cursorNumrows (w : MysqlRuntime) (i : ℕ) (rows : ℤ) : Except LuaRaise ℤ :=
  if (w.cursors i).cur.myRes.isNone then .error (.badArg 1 "invalid Cursor object") else .ok rows

section

variable (atof : List UInt8 → UInt64)

/-- `cursor_fetch` of cursor `i`. -/
def fetch (w : MysqlRuntime) (i : ℕ) (opt : LuaValue) (room : ℕ) :
    Except LuaRaise (Option LuaTable) × MysqlRuntime :=
  let (r, cur) := cursorFetch atof room (w.cursors i).cur opt
  (r, w.setCursor i cur)

/-- The result after `n` more rows were fetched. -/
def fetchRows : ℕ → Cursor → Cursor
  | 0, cur => cur
  | n + 1, cur => fetchRows n cur.fetchRow.2

/-- `cursor_fetch_all` of cursor `i`; `memory` is the row, if any, for which there is no
memory. -/
def fetchAll (w : MysqlRuntime) (i : ℕ) (opt : LuaValue) (memory : Option ℕ) :
    Except LuaRaise (Option RowTable) × MysqlRuntime :=
  let cur := (w.cursors i).cur
  if cur.myRes.isNone then (.error (.badArg 1 "invalid Cursor object"), w)
  else if !cur.fetchAll then (.error (.badArg 1 "not compatible with execute()"), w)
  else match cur.fetchRow with
    | (none, cur) => (.ok none, (w.setCursor i cur).cursorNullify i)
    | (some row, cur) =>
      if cur.numcols = 0 then (.ok none, (w.setCursor i cur).cursorNullify i)
      else
        let cur := cur.fetchFields
        let lengths := cur.fetchLengths.1
        let cur := cur.fetchLengths.2
        match lengths, cur.fields, cur.myRes with
        | true, some fields, some res =>
          match memory.filter (· ≤ res.remaining.length) with
          | some n => (.error (.error "not enough memory" 0), w.setCursor i (fetchRows n cur))
          | none =>
            (.ok (some (fetchAllLoop atof cur.numcols fields (alphaIdx opt) (res.remaining.length + 1)
                (some row) res 1 fun _ => none)),
              (w.setCursor i cur).cursorNullify i)
        | _, _, _ => (.error (.badArg 1 "fetch fields failed"), w.setCursor i cur)

end

end MysqlRuntime

/-! ## Scripts and the collector -/

inductive MysqlEvent
  | connCreate
  | execute (c : ℕ) (stmt fetchOpt : LuaValue) (reply : QueryReply)
  | fetch (i : ℕ) (opt : LuaValue) (room : ℕ)
  | fetchAll (i : ℕ) (opt : LuaValue) (memory : Option ℕ)
  | numrows (i : ℕ) (rows : ℤ)
  | connClose (c : ℕ)
  | connGc (c : ℕ)
  | cursorGc (i : ℕ)

namespace MysqlRuntime

/-- The objects exist, and the collector takes no connection that the registry holds. -/
def enabled (w : MysqlRuntime) : MysqlEvent → Prop
  | .connCreate => True
  | .execute c _ _ _ => c < w.connCount
  | .fetch i _ _ => i < w.cursorCount
  | .fetchAll i _ _ => i < w.cursorCount
  | .numrows i _ => i < w.cursorCount
  | .connClose c => c < w.connCount
  | .connGc c => c < w.connCount ∧ ∀ k, w.registry.slot k ≠ some (.userdata c)
  | .cursorGc i => i < w.cursorCount

def step (toLstring : LuaValue → Option (List UInt8)) (atof : List UInt8 → UInt64)
    (w : MysqlRuntime) :
    MysqlEvent → MysqlRuntime
  | .connCreate => w.connCreate
  | .execute c stmt fetchOpt reply => (w.connExecute toLstring c stmt fetchOpt reply).2
  | .fetch i opt room => (w.fetch atof i opt room).2
  | .fetchAll i opt memory => (w.fetchAll atof i opt memory).2
  | .numrows _ _ => w
  | .connClose c => w.connClose c
  | .connGc c => w.connGc c
  | .cursorGc i => w.cursorGc i

end MysqlRuntime

/-- One Lua state, under any script. -/
def mysqlRuntime (toLstring : LuaValue → Option (List UInt8)) (atof : List UInt8 → UInt64) :
    Machine MysqlRuntime MysqlEvent where
  init w := w = MysqlRuntime.init
  enabled := MysqlRuntime.enabled
  step := MysqlRuntime.step toLstring atof

end Qsf
