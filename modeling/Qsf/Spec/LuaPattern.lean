import Qsf.Spec.Bytes
import Qsf.Spec.LuaScript

/-!
# Patterns of Lua

`string.find` of Lua 5.3. A pattern is read item by item (`patternItems`); an item that is
malformed raises its error when a match reaches it (`doMatch`). Positions of the subject count
from 0 here, and from 1 where a script sees them. The locale is "C".
-/

set_option autoImplicit false

namespace Qsf

def ch (c : Char) : UInt8 := UInt8.ofNat c.toNat

def L_ESC : UInt8 := ch '%'

/-! ## Classes of characters -/

def isupper (c : UInt8) : Bool := ch 'A' ≤ c && c ≤ ch 'Z'

def islower (c : UInt8) : Bool := ch 'a' ≤ c && c ≤ ch 'z'

def isdigit (c : UInt8) : Bool := ch '0' ≤ c && c ≤ ch '9'

def isalpha (c : UInt8) : Bool := isupper c || islower c

def isalnum (c : UInt8) : Bool := isalpha c || isdigit c

def iscntrl (c : UInt8) : Bool := c < 32 || c == 127

def isgraph (c : UInt8) : Bool := 33 ≤ c && c ≤ 126

def ispunct (c : UInt8) : Bool := isgraph c && !isalnum c

def isxdigit (c : UInt8) : Bool := isdigit c || (ch 'a' ≤ c && c ≤ ch 'f') || (ch 'A' ≤ c && c ≤ ch 'F')

def tolower (c : UInt8) : UInt8 := if isupper c then c + 32 else c

def luaClasses : List (UInt8 × (UInt8 → Bool)) :=
  [(ch 'a', isalpha), (ch 'c', iscntrl), (ch 'd', isdigit), (ch 'g', isgraph), (ch 'l', islower),
    (ch 'p', ispunct), (ch 's', isspace), (ch 'u', isupper), (ch 'w', isalnum), (ch 'x', isxdigit),
    (ch 'z', fun c => c == 0)]

/-- `match_class`. -/
def matchClass (c cl : UInt8) : Bool :=
  match luaClasses.lookup (tolower cl) with
  | some test => if islower cl then test c else !test c
  | none => cl == c

/-- The loop of `matchbracketclass`, over what stands in the brackets. -/
def inBrackets (c : UInt8) : List UInt8 → Bool
  | [] => false
  | [x] => if x = L_ESC then matchClass c (ch ']') else x == c
  | [x, y] => if x = L_ESC then matchClass c y else x == c || inBrackets c [y]
  | x :: y :: z :: p =>
    if x = L_ESC then matchClass c y || inBrackets c (z :: p)
    else if y = ch '-' then (x ≤ c && c ≤ z) || inBrackets c p
    else x == c || inBrackets c (y :: z :: p)

/-- What one character of the subject is compared with. -/
inductive PatternClass
  | any
  | char (c : UInt8)
  | escaped (cl : UInt8)
  | set (complement : Bool) (p : List UInt8)
  deriving DecidableEq

def PatternClass.test (c : UInt8) : PatternClass → Bool
  | .any => true
  | .char d => d == c
  | .escaped cl => matchClass c cl
  | .set complement p => xor complement (inBrackets c p)

/-! ## Reading a pattern -/

inductive PatternSuffix
  | once
  | optional
  | star
  | plus
  | minus
  deriving DecidableEq

inductive PatternItem
  | openCapture
  | positionCapture
  | closeCapture
  | atEnd
  | balance (b e : UInt8)
  | frontier (set : PatternClass)
  | capture (l : UInt8)
  | single (cls : PatternClass) (suffix : PatternSuffix)
  | malformed (msg : String)
  deriving DecidableEq

/-- What stands before the closing bracket, and what follows it; the first character closes
nothing. -/
def upToBracket : List UInt8 → Option (List UInt8 × List UInt8)
  | [] => none
  | [_] => none
  | c :: d :: p =>
    if c = L_ESC then
      if p.head? = some (ch ']') then some ([c, d], p.tail)
      else (upToBracket p).map fun r => (c :: d :: r.1, r.2)
    else if d = ch ']' then some ([c], p)
    else (upToBracket (d :: p)).map fun r => (c :: r.1, r.2)

/-- The class in brackets, after the opening bracket. -/
def bracketClass (p : List UInt8) : Option (PatternClass × List UInt8) :=
  if p.head? = some (ch '^') then (upToBracket p.tail).map fun r => (.set true r.1, r.2)
  else (upToBracket p).map fun r => (.set false r.1, r.2)

def missingBracket : String := "malformed pattern (missing ']')"

/-- `classEnd`, for a class that starts with `c`. -/
def classEnd (c : UInt8) (p : List UInt8) : Except String (PatternClass × List UInt8) :=
  if c = L_ESC then
    match p with
    | [] => .error "malformed pattern (ends with '%%')"
    | cl :: p => .ok (.escaped cl, p)
  else if c = ch '[' then
    match bracketClass p with
    | none => .error missingBracket
    | some r => .ok r
  else if c = ch '.' then .ok (.any, p)
  else .ok (.char c, p)

def suffixAt : List UInt8 → PatternSuffix × List UInt8
  | [] => (.once, [])
  | c :: p =>
    if c = ch '?' then (.optional, p)
    else if c = ch '*' then (.star, p)
    else if c = ch '+' then (.plus, p)
    else if c = ch '-' then (.minus, p)
    else (.once, c :: p)

/-- A class with its suffix. -/
def singleItem (c : UInt8) (p : List UInt8) : PatternItem × List UInt8 :=
  match classEnd c p with
  | .error msg => (.malformed msg, [])
  | .ok (cls, p) => (.single cls (suffixAt p).1, (suffixAt p).2)

def balanceItem : List UInt8 → PatternItem × List UInt8
  | b :: e :: p => (.balance b e, p)
  | _ => (.malformed "malformed pattern (missing arguments to '%%b')", [])

def frontierItem (p : List UInt8) : PatternItem × List UInt8 :=
  if p.head? = some (ch '[') then
    match bracketClass p.tail with
    | none => (.malformed missingBracket, [])
    | some (set, p) => (.frontier set, p)
  else (.malformed "missing '[' after '%%f' in pattern", [])

/-- The item that starts with `c`, and what follows it. -/
def patternItem (c : UInt8) (p : List UInt8) : PatternItem × List UInt8 :=
  if c = ch '(' then
    if p.head? = some (ch ')') then (.positionCapture, p.tail) else (.openCapture, p)
  else if c = ch ')' then (.closeCapture, p)
  else if c = ch '$' ∧ p = [] then (.atEnd, [])
  else if c = L_ESC ∧ p.head? = some (ch 'b') then balanceItem p.tail
  else if c = L_ESC ∧ p.head? = some (ch 'f') then frontierItem p.tail
  else if c = L_ESC ∧ (p.head?.map isdigit).getD false then (.capture (p.headD 0), p.tail)
  else singleItem c p

/-- The items of a pattern; `n` is its length. -/
def patternItems : ℕ → List UInt8 → List PatternItem
  | n + 1, c :: p => (patternItem c p).1 :: patternItems n (patternItem c p).2
  | _, _ => []

/-! ## Matching -/

def LUA_MAXCAPTURES : ℕ := 32

def MAXCCALLS : ℕ := 200

inductive CaptureLen
  | unfinished
  | position
  | closed (len : ℕ)
  deriving DecidableEq

structure Capture where
  init : ℕ
  len : CaptureLen
  deriving DecidableEq

/-- The end of the match and the captures. -/
abbrev Matched := Except LuaRaise (Option (ℕ × List Capture))

/-- A call of `match` by a function that `match` calls; `matchdepth` such calls are left. -/
def nested (matchdepth : ℕ) (f : ℕ → Matched) : Matched :=
  match matchdepth with
  | 0 => .error (.error "pattern too complex" 0)
  | d + 1 => f d

/-- `capture_to_close`. -/
def captureToClose (caps : List Capture) : Option ℕ :=
  (List.range caps.length).reverse.find? fun l => (caps[l]?.map Capture.len) == some .unfinished

def closeAt (i : ℕ) (c : Capture) : Capture := { c with len := .closed (i - c.init) }

/-- `check_capture`: the length of capture `l`, if it has one. -/
def checkCapture (caps : List Capture) (l : UInt8) : Except LuaRaise Capture :=
  let bad : LuaRaise := .error "invalid capture index %%%d" (l.toNat - (ch '0').toNat : ℤ)
  if l < ch '1' then .error bad
  else match caps[(l - ch '1').toNat]? with
    | none => .error bad
    | some c => if c.len = .unfinished then .error bad else .ok c

/-- The loop of `matchbalance`, with `cont` brackets open. -/
def matchBalance (b e : UInt8) : ℕ → List UInt8 → ℕ → Option ℕ
  | _, [], _ => none
  | cont, c :: t, i =>
    if c = e then (if cont = 1 then some (i + 1) else matchBalance b e (cont - 1) t (i + 1))
    else if c = b then matchBalance b e (cont + 1) t (i + 1)
    else matchBalance b e cont t (i + 1)

/-- `max_expand`, from `n` repetitions down. -/
def maxExpand (k : ℕ → Matched) (i : ℕ) : ℕ → Matched
  | 0 => k i
  | n + 1 =>
    match k (i + n + 1) with
    | .ok none => maxExpand k i n
    | r => r

/-- `min_expand`, where `t` is left of the subject. -/
def minExpand (cls : PatternClass) (k : ℕ → Matched) : List UInt8 → ℕ → Matched
  | [], i => k i
  | c :: t, i =>
    match k i with
    | .ok none => if cls.test c then minExpand cls k t (i + 1) else .ok none
    | r => r

section

variable (s : List UInt8)

/-- `singlematch`. -/
def singlematch (i : ℕ) (cls : PatternClass) : Bool := (s[i]?.map fun c => cls.test c).getD false

/-- How often the class matches from `i` on. -/
def repetitions (i : ℕ) (cls : PatternClass) : ℕ := ((s.drop i).takeWhile fun c => cls.test c).length

/-- `match`, at position `i`. -/
def doMatch : List PatternItem → ℕ → ℕ → List Capture → Matched
  | [], _, i, caps => .ok (some (i, caps))
  | .openCapture :: p, d, i, caps =>
    if LUA_MAXCAPTURES ≤ caps.length then .error (.error "too many captures" 0)
    else nested d fun d => doMatch p d i (caps ++ [⟨i, .unfinished⟩])
  | .positionCapture :: p, d, i, caps =>
    if LUA_MAXCAPTURES ≤ caps.length then .error (.error "too many captures" 0)
    else nested d fun d => doMatch p d i (caps ++ [⟨i, .position⟩])
  | .closeCapture :: p, d, i, caps =>
    match captureToClose caps with
    | none => .error (.error "invalid pattern capture" 0)
    | some l => nested d fun d => doMatch p d i (caps.modify l (closeAt i))
  | .atEnd :: _, _, i, caps => if i = s.length then .ok (some (i, caps)) else .ok none
  | .balance b e :: p, d, i, caps =>
    if s[i]? = some b then
      match matchBalance b e 1 (s.drop (i + 1)) (i + 1) with
      | none => .ok none
      | some j => doMatch p d j caps
    else .ok none
  | .frontier set :: p, d, i, caps =>
    let previous := if i = 0 then 0 else s.getD (i - 1) 0
    if !set.test previous && set.test (s.getD i 0) then doMatch p d i caps else .ok none
  | .capture l :: p, d, i, caps =>
    match checkCapture caps l with
    | .error e => .error e
    | .ok c =>
      match c.len with
      | .closed len =>
        if i + len ≤ s.length ∧ (s.drop c.init).take len = (s.drop i).take len then doMatch p d (i + len) caps
        else .ok none
      | _ => .ok none           -- a position is no string
  | .single cls suffix :: p, d, i, caps =>
    if singlematch s i cls then
      match suffix with
      | .once => doMatch p d (i + 1) caps
      | .optional =>
        match nested d fun d => doMatch p d (i + 1) caps with
        | .ok none => doMatch p d i caps
        | r => r
      | .plus => maxExpand (fun i => nested d fun d => doMatch p d i caps) (i + 1) (repetitions s (i + 1) cls)
      | .star => maxExpand (fun i => nested d fun d => doMatch p d i caps) i (repetitions s i cls)
      | .minus => minExpand cls (fun i => nested d fun d => doMatch p d i caps) (s.drop i) i
    else
      match suffix with
      | .once | .plus => .ok none
      | _ => doMatch p d i caps
  | .malformed msg :: _, _, _, _ => .error (.error msg 0)

/-- `push_onecapture`. -/
def pushOnecapture (c : Capture) : Except LuaRaise LuaValue :=
  match c.len with
  | .unfinished => .error (.error "unfinished capture" 0)
  | .position => .ok (.integer (c.init + 1))
  | .closed len => .ok (.string ((s.drop c.init).take len))

/-- What `string.find` returns, in indices from 1. -/
structure Found where
  first : ℕ
  last : ℕ
  captures : List LuaValue
  deriving DecidableEq

/-- The loop of `str_find_aux`, from position `i`; `n` characters follow. -/
def findFrom (items : List PatternItem) (anchor : Bool) : ℕ → ℕ → Except LuaRaise (Option Found)
  | n, i =>
    match nested MAXCCALLS fun d => doMatch s items d i [] with
    | .error e => .error e
    | .ok (some (j, caps)) => (caps.mapM (pushOnecapture s)).map fun captures => some ⟨i + 1, j, captures⟩
    | .ok none =>
      match n with
      | 0 => .ok none
      | n + 1 => if anchor then .ok none else findFrom items anchor n (i + 1)

end

/-! ## `string.find` -/

/-- `SPECIALS`. -/
def specials : List UInt8 := [ch '^', ch '$', ch '*', ch '+', ch '?', ch '.', ch '(', ch '[', ch '%', ch '-']

/-- The magic characters of the manual: `^$()%.[]*+-?`. -/
def magic : List UInt8 := ch ')' :: ch ']' :: specials

/-- `nospecials`. -/
def nospecials (p : List UInt8) : Bool := p.all fun c => !specials.contains c

/-- `posrelat`. -/
def posrelat (pos : ℤ) (len : ℕ) : ℤ := if 0 ≤ pos then pos else if len < -pos then 0 else len + pos + 1

/-- `lmemfind`. -/
def lmemfind (p : List UInt8) : List UInt8 → Option ℕ
  | [] => if p.isPrefixOf [] then some 0 else none
  | c :: t => if p.isPrefixOf (c :: t) then some 0 else (lmemfind p t).map (· + 1)

/-- `string.find(s, p, init)`. -/
def stringFind (s p : List UInt8) (init : ℤ) : Except LuaRaise (Option Found) :=
  let i := (max 1 (posrelat init s.length) - 1).toNat
  if s.length < i then .ok none
  else if nospecials p then .ok ((lmemfind p (s.drop i)).map fun k => ⟨i + k + 1, i + k + p.length, []⟩)
  else
    let anchor := p.head? == some (ch '^')
    let p := if anchor then p.tail else p
    findFrom s (patternItems p.length p) anchor (s.length - i) i

/-- A function that finds a match at or after a position. -/
structure Finder where
  find : List UInt8 → List UInt8 → ℤ → Except LuaRaise (Option Found)
  le_first : ∀ {s p init m}, find s p init = .ok (some m) → init ≤ m.first
  first_le_last : ∀ {s p init m}, find s p init = .ok (some m) → m.first ≤ m.last + 1

end Qsf
