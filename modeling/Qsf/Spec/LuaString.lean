import Qsf.Spec.LuaPattern
import Mathlib.Data.Nat.Digits.Defs

/-!
# Strings of Lua: literals, numerals, substitution

What the scripts use of `string.format`, `tostring`, `tonumber` with a base and `string.gsub`, as
Lua 5.3 has them; `lStr2int` is what `tonumber` without a base makes of a numeral that is an integer.
-/

set_option autoImplicit false

namespace Qsf

/-- A literal of a script. -/
def str (s : String) : List UInt8 := s.toList.map ch

/-! ## Numerals -/

/-- Digit `d` as `%X` prints it. -/
def digitChar (d : ℕ) : UInt8 := UInt8.ofNat (if d < 10 then 48 + d else 55 + d)

/-- A number in some base, without leading zeros. -/
def formatBase (b n : ℕ) : List UInt8 :=
  if n = 0 then [ch '0'] else ((Nat.digits b n).reverse.map digitChar)

/-- `%d`, and `tostring` of an integer. -/
def formatInt (n : ℤ) : List UInt8 :=
  if n < 0 then ch '-' :: formatBase 10 n.natAbs else formatBase 10 n.natAbs

/-- `%X`. -/
def formatX (n : ℕ) : List UInt8 := formatBase 16 n

/-- The value of a digit or a letter, as `tonumber` with a base has it. -/
def digitValue (c : UInt8) : ℕ := if isdigit c then c.toNat - 48 else (tolower c).toNat - 87

def numeralValue (b : ℕ) (s : List UInt8) : UInt64 :=
  s.foldl (fun n c => n * UInt64.ofNat b + UInt64.ofNat (digitValue c)) 0

/-- A sign, and what follows it. -/
def signed (s : List UInt8) : Bool × List UInt8 :=
  match s with
  | c :: t => if c = ch '-' then (true, t) else if c = ch '+' then (false, t) else (false, c :: t)
  | [] => (false, [])

/-- The integer with some sign and digits. -/
def signedValue (neg : Bool) (n : UInt64) : Int64 := (if neg then -n else n).toInt64

/-- `tonumber(s, b)`. -/
def tonumberBase (s : List UInt8) (b : ℕ) : Option Int64 :=
  let (neg, t) := signed (s.dropWhile isspace)
  let digits := t.takeWhile isalnum
  if digits = [] ∨ ¬ digits.all (digitValue · < b) ∨ ¬ (t.dropWhile isalnum).all isspace then none
  else some (signedValue neg (numeralValue b digits))

/-- `l_str2int`. -/
def lStr2int (s : List UInt8) : Option Int64 :=
  let (neg, t) := signed (s.dropWhile isspace)
  let hex := t.head? = some (ch '0') ∧ (t[1]? = some (ch 'x') ∨ t[1]? = some (ch 'X'))
  let t := if hex then t.drop 2 else t
  let test := if hex then isxdigit else isdigit
  let digits := t.takeWhile test
  if digits = [] ∨ ¬ (t.dropWhile test).all isspace then none
  else some (signedValue neg (numeralValue (if hex then 16 else 10) digits))

/-! ## `string.gsub` -/

section

variable (s : List UInt8)

/-- The captures of a match, or the whole match when there are none. -/
def captured (i j : ℕ) (caps : List Capture) : Except LuaRaise (List LuaValue) :=
  if caps = [] then .ok [.string ((s.drop i).take (j - i))] else caps.mapM (pushOnecapture s)

variable {σ : Type} (repl : σ → List LuaValue → Option (List UInt8) × σ)

/-- The loop of `str_gsub`, from position `i`, with some fuel. -/
def gsubFrom (items : List PatternItem) (anchor : Bool) : ℕ → ℕ → σ → Except LuaRaise (List UInt8 × σ)
  | 0, i, st => .ok (s.drop i, st)
  | n + 1, i, st => do
    match ← nested MAXCCALLS fun d => doMatch s items d i [] with
    | some (j, caps) =>
      let vals ← captured s i j caps
      let (r, st) := repl st vals
      let out := r.getD ((s.drop i).take (j - i))   -- nil or false: the original text
      if i < j then
        let (rest, st) ← if anchor then .ok (s.drop j, st) else gsubFrom items anchor n j st
        return (out ++ rest, st)
      else if i < s.length then
        let (rest, st) ← if anchor then .ok (s.drop (i + 1), st) else gsubFrom items anchor n (i + 1) st
        return (out ++ (s.drop i).take 1 ++ rest, st)
      else return (out, st)
    | none =>
      if i < s.length then
        let (rest, st) ← if anchor then .ok (s.drop (i + 1), st) else gsubFrom items anchor n (i + 1) st
        return ((s.drop i).take 1 ++ rest, st)
      else return ([], st)

/-- `string.gsub(s, p, repl)`: the string, and what the function `repl` did besides. -/
def stringGsub (p : List UInt8) (st : σ) : Except LuaRaise (List UInt8 × σ) :=
  let anchor := p.head? == some (ch '^')
  let p := if anchor then p.tail else p
  gsubFrom s repl (patternItems p.length p) anchor (s.length + 1) 0 st

end

end Qsf
