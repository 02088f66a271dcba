import Qsf.Lib.Assign
import Qsf.Spec.Bytes
import Qsf.Spec.Lua

/-!
# MySQL cursors (`lualib/lua_mysql.c`)

`cur:fetch(opt)` returns one row of a result as a table, `cur:fetchAll(opt)` returns all
rows that are left. Both build a row with `resultToTable`, from the cells of the row and
the array of their lengths.

Of libmysql, for a stored result: `mysql_fetch_row` steps to the next row and leaves the
lengths alone; `mysql_fetch_lengths` recomputes them from the current row and returns
that same array.
-/

set_option autoImplicit false

namespace Qsf

/-! ## libmysql -/

/-- `enum enum_field_types`. -/
inductive FieldType
  | decimal | tiny | short | long | float | double | null | timestamp | longlong | int24
  | date | time | datetime | year | newdate | varchar | bit | timestamp2 | datetime2 | time2
  | newdecimal | enum | set | tinyBlob | mediumBlob | longBlob | blob | varString | string | geometry
  deriving DecidableEq

structure MysqlField where
  name : CString
  type : FieldType

/-- What a cell points to: its bytes, a NUL, and the memory after it. -/
structure MysqlCell where
  data : List UInt8
  beyond : ℕ → UInt8

/-- The first `n` bytes at the pointer. -/
def MysqlCell.read (c : MysqlCell) (n : ℕ) : List UInt8 :=
  (c.data ++ 0 :: (List.range n).map c.beyond).take n

/-- `MYSQL_ROW`: a pointer for each column, `none` for `NULL`. -/
abbrev MysqlRow := ℕ → Option MysqlCell

/-- The length of column `i`; a `NULL` has length 0. -/
def MysqlRow.length (row : MysqlRow) (i : ℕ) : ℕ := (row i).elim 0 (·.data.length)

/-- `MYSQL_RES` of a stored result. -/
structure MysqlRes where
  fields : ℕ → MysqlField
  /-- The rows after the current one. -/
  remaining : List MysqlRow
  currentRow : Option MysqlRow
  lengths : ℕ → ℕ

def mysqlFetchRow (res : MysqlRes) : Option MysqlRow × MysqlRes :=
  match res.remaining with
  | [] => (none, { res with currentRow := none })
  | row :: rest => (some row, { res with remaining := rest, currentRow := some row })

/-- The array is part of the result, so the first component says only that the pointer
is not `NULL`. -/
def mysqlFetchLengths (res : MysqlRes) : Bool × MysqlRes :=
  match res.currentRow with
  | none => (false, res)
  | some row => (true, { res with lengths := row.length })

def mysqlFetchFields (res : MysqlRes) : ℕ → MysqlField := res.fields

@[simp] theorem mysqlFetchRow_fields (res : MysqlRes) : (mysqlFetchRow res).2.fields = res.fields := by
  unfold mysqlFetchRow
  split <;> rfl

@[simp] theorem mysqlFetchLengths_fields (res : MysqlRes) :
    (mysqlFetchLengths res).2.fields = res.fields := by
  unfold mysqlFetchLengths
  split <;> rfl

/-! ## The C library -/

/-- The number that a prefix of decimal digits stands for. -/
def digitsValue (s : List UInt8) : ℕ :=
  (s.takeWhile fun b => 48 ≤ b && b ≤ 57).foldl (fun n b => 10 * n + (b.toNat - 48)) 0

/-- `atoll`, of a string without its NUL: spaces, a sign, digits. Out of range it gives
the nearest `long long`. -/
def atoll (s : List UInt8) : ℤ :=
  match s.dropWhile isspace with
  | 45 :: ds => max (-(digitsValue ds : ℤ)) (-2 ^ 63)
  | 43 :: ds => min (digitsValue ds) (2 ^ 63 - 1)
  | ds => min (digitsValue ds) (2 ^ 63 - 1)

/-! ## Cursors -/

/-- `Cursor`. -/
structure Cursor where
  conn : ℤ
  fetchAll : Bool
  numcols : ℕ
  myRes : Option MysqlRes
  fields : Option (ℕ → MysqlField)
  /-- Descriptors that are cached are those of the result. -/
  cached : ∀ fs ∈ fields, ∀ res ∈ myRes, fs = res.fields

namespace Cursor

/-- `create_cursor`; `ref` is the registry's number for the connection. -/
def create (ref : ℤ) (res : MysqlRes) (numcols : ℕ) (fetchAll : Bool) : Cursor where
  conn := ref
  fetchAll := fetchAll
  numcols := numcols
  myRes := some res
  fields := none
  cached := by simp

/-- `mysql_fetch_row(cur->my_res)`. -/
def fetchRow (cur : Cursor) : Option MysqlRow × Cursor :=
  (cur.myRes.bind fun res => (mysqlFetchRow res).1,
    { cur with
      myRes := cur.myRes.map fun res => (mysqlFetchRow res).2
      cached := by
        intro fs hfs res hres
        obtain ⟨res0, h0, rfl⟩ := Option.map_eq_some_iff.1 hres
        rw [mysqlFetchRow_fields]
        exact cur.cached fs hfs res0 h0 })

/-- `mysql_fetch_lengths(cur->my_res)`. -/
def fetchLengths (cur : Cursor) : Bool × Cursor :=
  (cur.myRes.any fun res => (mysqlFetchLengths res).1,
    { cur with
      myRes := cur.myRes.map fun res => (mysqlFetchLengths res).2
      cached := by
        intro fs hfs res hres
        obtain ⟨res0, h0, rfl⟩ := Option.map_eq_some_iff.1 hres
        rw [mysqlFetchLengths_fields]
        exact cur.cached fs hfs res0 h0 })

/-- `if (cur->fields == NULL) cur->fields = mysql_fetch_fields(res)`. -/
def fetchFields (cur : Cursor) : Cursor :=
  { cur with
    fields := cur.fields.or (cur.myRes.map mysqlFetchFields)
    cached := by
      intro fs hfs res hres
      rcases hf : cur.fields with _ | fs0
      · rw [hf, Option.mem_def.1 hres] at hfs
        exact (Option.some.inj hfs).symm
      · rw [hf] at hfs
        exact cur.cached fs (by rw [hf]; exact hfs) res hres }

/-- `cursor_nullify`. -/
def nullify (reg : Registry) (cur : Cursor) : Registry × Cursor :=
  (if cur.conn = LUA_NOREF then reg else luaLUnref reg cur.conn,
    { cur with
      conn := LUA_NOREF
      myRes := none
      fields := if cur.myRes.isSome then none else cur.fields
      cached := by simp })

end Cursor

/-! ## Rows as tables -/

/-- The key of column `i`: its name, or its position counted from 1. -/
def fieldKey (alphaIdx : Bool) (fields : ℕ → MysqlField) (i : ℕ) : LuaValue :=
  if alphaIdx then .string (fields i).name.bytes else .integer (i + 1)

/-- `opt && strcmp(opt, "a") == 0`: what other values turn into is never `"a"`. -/
def alphaIdx : LuaValue → Bool
  | .string s => cstr s = [97]
  | _ => false

section

-- `atof`: the float that a C string stands for, by its bits
variable (atof : List UInt8 → UInt64)

/-- `pushvalue`. -/
def pushvalue (type : FieldType) (row : Option MysqlCell) (len : ℕ) : LuaValue :=
  match row with
  | none => .nil
  | some cell =>
    match type with
    | .null => .nil
    | .bit | .tiny | .short | .int24 | .year | .long | .longlong => .integer (atoll (cstr cell.data))
    | .decimal | .newdecimal | .float | .double => .number (atof (cstr cell.data))
    | _ => .string (cell.read len)

/-- `result_to_table`: one assignment for each column. -/
def resultToTable (numcols : ℕ) (fields : ℕ → MysqlField) (row : MysqlRow) (lengths : ℕ → ℕ)
    (alphaIdx : Bool) : LuaTable :=
  assign (fieldKey alphaIdx fields) (fun i => pushvalue atof (fields i).type (row i) (lengths i))
    numcols luaCreatetable

-- `room`: the stack slots that `luaL_checkstack` can still provide
variable (room : ℕ)

/-- `cursor_fetch`; `.ok none` is a call without results. -/
def cursorFetch (cur : Cursor) (opt : LuaValue) : Except LuaRaise (Option LuaTable) × Cursor :=
  if cur.myRes.isNone then (.error (.badArg 1 "invalid Cursor object"), cur)
  else match cur.fetchRow with
    | (none, cur) => (.ok none, cur)
    | (some row, cur) =>
      let lengths := cur.fetchLengths.1
      let cur := cur.fetchLengths.2.fetchFields
      match lengths, cur.fields, cur.myRes with
      | true, some fields, some res =>
        if room < cur.numcols then (.error (.stackOverflow "too many columns"), cur)
        else (.ok (some (resultToTable atof cur.numcols fields row res.lengths (alphaIdx opt))), cur)
      | _, _, _ => (.error (.badArg 1 "fetch fields failed"), cur)

/-- The rows of `fetchAll`, by their keys. -/
abbrev RowTable := ℤ → Option LuaTable

/-- The loop of `cursor_fetch_all`, for at most `fuel` rows. `rownum` is an `int`. -/
def fetchAllLoop (numcols : ℕ) (fields : ℕ → MysqlField) (alphaIdx : Bool) :
    ℕ → Option MysqlRow → MysqlRes → BitVec 32 → RowTable → RowTable
  | 0, _, _, _, t => t
  | _ + 1, none, _, _, t => t
  | fuel + 1, some row, res, rownum, t =>
    -- `lengths` still points into the result, but nobody recomputes it
    let value := resultToTable atof numcols fields row res.lengths alphaIdx
    fetchAllLoop numcols fields alphaIdx fuel (mysqlFetchRow res).1 (mysqlFetchRow res).2
      (rownum + 1) (Function.update t rownum.toInt (some value))

/-- `cursor_fetch_all`. -/
def cursorFetchAll (reg : Registry) (cur : Cursor) (opt : LuaValue) :
    Except LuaRaise (Option RowTable) × Registry × Cursor :=
  if cur.myRes.isNone then (.error (.badArg 1 "invalid Cursor object"), reg, cur)
  else if !cur.fetchAll then (.error (.badArg 1 "not compatible with execute()"), reg, cur)
  else match cur.fetchRow with
    | (none, cur) => (.ok none, cur.nullify reg)
    | (some row, cur) =>
      if cur.numcols = 0 then (.ok none, cur.nullify reg)
      else
        let cur := cur.fetchFields
        let lengths := cur.fetchLengths.1
        let cur := cur.fetchLengths.2
        match lengths, cur.fields, cur.myRes with
        | true, some fields, some res =>
          (.ok (some (fetchAllLoop atof cur.numcols fields (alphaIdx opt) (res.remaining.length + 1)
              (some row) res 1 fun _ => none)),
            cur.nullify reg)
        | _, _, _ => (.error (.badArg 1 "fetch fields failed"), reg, cur)

/-- A script that collects `cur:fetch(opt)` until it returns nothing, with at most `fuel`
calls; `none` when a call raises an error. -/
def fetchUntilNothing (opt : LuaValue) : ℕ → Cursor → Option (List LuaTable)
  | 0, _ => none
  | fuel + 1, cur =>
    match cursorFetch atof room cur opt with
    | (.ok (some row), cur) => (fetchUntilNothing opt fuel cur).map (row :: ·)
    | (.ok none, _) => some []
    | (.error _, _) => none

end

/-- The Lua list of some rows. -/
def listTable (rows : List LuaTable) :
    RowTable := fun k => if 1 ≤ k then rows[(k - 1).toNat]? else none

end Qsf
