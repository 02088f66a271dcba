import Qsf.Spec.LuaNet
import Qsf.Spec.LuaPattern

/-!
# Extensions of `string` (`lib/string_ext.lua`)

`string.split`, `string.join`, `string.startswith` and `string.endswith`; `find` is
`string.find`.
-/

set_option autoImplicit false

namespace Qsf

section

variable (find : List UInt8 → List UInt8 → ℤ → Except LuaRaise (Option Found))

/-- The loop of `string.split`; `patt` is `nil` where it was not assigned. -/
def splitLoop (s : List UInt8) (patt : Option (List UInt8)) :
    ℕ → ℕ → List LuaValue → Except LuaStop (List LuaValue)
  | 0, _, _ => .error .unfinished
  | fuel + 1, b, r =>
    if b ≤ s.length then
      match patt with
      | none => .error (.raises (.badArg 2 "string expected"))
      | some patt =>
        match find s patt (b + 1) with
        | .error e => .error (.raises e)
        | .ok none => splitLoop s patt fuel (s.length + 1) (r ++ [.string (s.drop b)])
        | .ok (some m) => splitLoop s patt fuel m.last (r ++ [m.captures.headD (.string (s.drop b))])
    else .ok r

/-- The pattern of `string.split`: the shortest text up to a separator. -/
def splitPattern (sep : Option (List UInt8)) : List UInt8 :=
  [ch '(', ch '.', ch '-', ch ')'] ++ sep.getD [ch '%', ch 's', ch '+']

/-- `string.split`; `sep` may be `nil`. -/
def stringSplit (s : List UInt8) (sep : Option (List UInt8)) (fuel : ℕ) : Except LuaStop (List LuaValue) :=
  if sep = some [] then splitLoop find s none fuel 0 [.string []]
  else splitLoop find s (some (splitPattern sep)) fuel 0 []

/-- What `string.find(s, p, init) == n` is. -/
def foundAt (s p : List UInt8) (init n : ℤ) : Except LuaRaise LuaValue :=
  (find s p init).map fun m => .boolean ((m.map fun m => (m.first : ℤ)) == some n)

/-- `string.startswith`. -/
def stringStartswith (str s : List UInt8) : Except LuaRaise LuaValue := foundAt find str s 1 1

/-- `string.endswith`; `nil` where it returns nothing. -/
def stringEndswith (str s : List UInt8) : Except LuaRaise LuaValue :=
  if s = [] then .ok (.boolean true)
  else
    let init : ℤ := str.length - s.length
    if 0 ≤ init then foundAt find str s init (init + 1) else .ok .nil

end

section

-- what Lua converts to a string, besides strings
variable (toLstring : LuaValue → Option (List UInt8))

/-- `addfield` of `table.concat`, for the element at `i`. -/
def concatField (i : ℕ) (v : LuaValue) : Except LuaRaise (List UInt8) :=
  match luaTolstring toLstring v with
  | some s => .ok s
  | none => .error (.error "invalid value (%s) at index %d in table for 'concat'" i)

/-- The loop of `table.concat`, from index `i`. -/
def concatFrom (delim : List UInt8) : ℕ → List LuaValue → Except LuaRaise (List UInt8)
  | _, [] => .ok []
  | i, [v] => concatField toLstring i v
  | i, v :: w :: tbl => do
    let s ← concatField toLstring i v
    let rest ← concatFrom delim (i + 1) (w :: tbl)
    .ok (s ++ delim ++ rest)

/-- `string.join`; `delim` may be `nil`. -/
def stringJoin (tbl : List LuaValue) (delim : Option (List UInt8)) : Except LuaRaise (List UInt8) :=
  concatFrom toLstring (delim.getD []) 1 tbl

end

end Qsf
