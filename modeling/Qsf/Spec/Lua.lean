import Qsf.Lib.RefPool

/-!
# Lua, as far as C functions see it

Values, the arguments of a call, the errors a C function raises, tables, and the
registry with `luaL_ref` and `luaL_unref`. Lua is not part of the repository; this is
what the code relies on.
-/

set_option autoImplicit false

namespace Qsf

inductive LuaValue
  | nil
  | boolean (b : Bool)
  | integer (n : ℤ)
  | number (bits : UInt64)     -- a float, by its bits
  | string (s : List UInt8)
  | function (id : ℕ)
  | userdata (i : ℕ)           -- server object `i`
  deriving DecidableEq

/-- An error raised by a C function. -/
inductive LuaRaise
  | badArg (n : ℕ) (msg : String)
  | error (fmt : String) (code : ℤ)
  | stackOverflow (msg : String)
  deriving DecidableEq

/-- The entries of a table without metatable; a key that is absent has `nil`. -/
abbrev LuaTable := LuaValue → LuaValue

/-- `lua_createtable`: the sizes are hints only. -/
def luaCreatetable : LuaTable := fun _ => .nil

def LUA_NOREF : ℤ := -2

def LUA_REFNIL : ℤ := -1

/-- The registry, as `luaL_ref` uses it. -/
abbrev Registry := RefPool LuaValue

/-- `luaL_ref`, for the value on top of the stack. -/
def luaLRef (reg : Registry) (top : LuaValue) : ℤ × Registry :=
  if top = .nil then (LUA_REFNIL, reg) else ((reg.take top).1, (reg.take top).2)

/-- `luaL_unref`. -/
def luaLUnref (reg : Registry) (ref : ℤ) : Registry := if ref < 0 then reg else reg.give ref.toNat

/-- `lua_rawgeti` of the registry. A number that is not in use denotes no function. -/
def luaRawgeti (reg : Registry) (ref : ℤ) : LuaValue :=
  if ref < 0 then .nil else (reg.slot ref.toNat).getD .nil

/-- `lua_isfunction`. -/
def luaIsfunction : LuaValue → Bool
  | .function _ => true
  | _ => false

/-- `lua_isstring`: numbers are accepted as strings. -/
def luaIsstring : LuaValue → Bool
  | .string _ | .integer _ | .number _ => true
  | _ => false

/-- Argument `n` of a call. -/
def luaArg (args : List LuaValue) (n : ℕ) : LuaValue := args.getD (n - 1) .nil

/-- The value on top of the stack of a call. -/
def luaTop (args : List LuaValue) : LuaValue := args.getLastD .nil

end Qsf
