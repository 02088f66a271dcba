import Mathlib.Data.Rat.Defs
import Mathlib.Order.WithBot
import Qsf.Lib.Program
import Qsf.Spec.Bytes

/-!
# MessagePack (`lib/MessagePack.lua`)

What `qsf.notify` sends and `logger.lua` reads. A table is the list of its entries in the order
of `next`; since tables have no identity here, a table that contains itself is not a value, and
two tables are never one key.

A float is the 64 bits of a `double`; what C makes of them as a `float`, and of a `float` as a
`double`, are parameters (`narrow`, `widen`). An unpacker is a program that asks for bytes; a cursor,
over a string or over a loader, answers.
-/

set_option autoImplicit false

namespace Qsf

inductive MpValue
  | nil
  | boolean (b : Bool)
  | integer (n : Int64)
  | float (bits : UInt64)
  | string (s : List UInt8)
  | table (es : List (MpValue × MpValue))
  | other (type : String)           -- a function, a userdata or a thread

/-- The errors raised, with what goes into their texts. -/
inductive MpError
  | packUnimplemented (type : String)   -- "pack '..' is unimplemented"
  | packOverflow (packer : String)      -- "overflow in pack '..'"
  | noInteger (called : String)         -- "bad argument #.. to '..' (number has no integer representation)"
  | unpackUnimplemented (k : UInt8)     -- "unpack 'reserved..' is unimplemented"
  | missingBytes
  | extraBytes
  | indexIsNaN
  | unfinished                          -- the fuel is used up
  deriving DecidableEq

/-! ## `string.pack` and `string.unpack` -/

/-- `string.pack` with the format `>I<k>`. -/
def packU (k n : ℕ) : List UInt8 := (leBytes k n).reverse

/-- `string.pack` with the format `>i<k>`. -/
def packI (k : ℕ) (n : ℤ) : List UInt8 := packU k (n % (256 ^ k : ℕ)).toNat

/-- `string.unpack` with the format `>I<k>` of `k` bytes. -/
def unpackU (bs : List UInt8) : ℕ := leNat bs.reverse

/-- `string.unpack` with the format `>i<k>` of `k` bytes. -/
def unpackI (bs : List UInt8) : ℤ := (unpackU bs : ℤ).bmod (256 ^ bs.length)

/-! ## Numbers -/

/-- The value of a finite float. -/
def doubleRat (bits : UInt64) : Option ℚ :=
  let e := bits.toNat / 2 ^ 52 % 2 ^ 11
  let f : ℕ := bits.toNat % 2 ^ 52
  let m : ℕ := if e = 0 then f else f + 2 ^ 52
  let q : ℚ := (m * 2 ^ max e 1 : ℕ) / (2 ^ 1075 : ℕ)
  if e = 2 ^ 11 - 1 then none else some (if bits.toNat < 2 ^ 63 then q else -q)

/-- The value of a number, none for a NaN and for what is no number. -/
def MpValue.number : MpValue → Option (WithBot (WithTop ℚ))
  | .integer n => some ((n.toInt : ℚ) : WithTop ℚ)
  | .float bits =>
    match doubleRat bits with
    | some q => some (q : WithTop ℚ)
    | none => if bits.toNat % 2 ^ 52 ≠ 0 then none else if bits.toNat < 2 ^ 63 then some (some ⊤) else some ⊥
  | _ => none

/-- The key that a float stands for: the integer of its value, if it has one. -/
def floatKey (bits : UInt64) : MpValue :=
  match doubleRat bits with
  | some q => if q.den = 1 ∧ -2 ^ 63 ≤ q.num ∧ q.num < 2 ^ 63 then .integer (Int64.ofInt q.num) else .float bits
  | none => .float bits

/-! ## Tables -/

/-- `rawequal`. A table is equal to itself only. -/
def MpValue.rawequal : MpValue → MpValue → Bool
  | .nil, .nil => true
  | .boolean a, .boolean b => a = b
  | .integer a, .integer b => a = b
  | .float a, .float b => a = b
  | .string a, .string b => a = b
  | _, _ => false

/-- `t[k]`. -/
def rawget (es : List (MpValue × MpValue)) (k : MpValue) : MpValue :=
  ((es.find? fun p => p.1.rawequal k).map Prod.snd).getD .nil

/-- `t[k] = v`, for a key that is neither nil nor a NaN nor a float with the value of an integer. -/
def rawset (es : List (MpValue × MpValue)) (k v : MpValue) : List (MpValue × MpValue) :=
  match v with
  | .nil => es.filter fun p => !p.1.rawequal k
  | v => if es.any fun p => p.1.rawequal k then es.map fun p => if p.1.rawequal k then (k, v) else p
    else es ++ [(k, v)]

/-! ## Packers -/

inductive StringOption
  | string_compat
  | string
  | binary

inductive IntegerOption
  | unsigned
  | signed

inductive NumberOption
  | integer
  | float
  | double

inductive ArrayOption
  | without_hole
  | with_hole
  | always_as_map

/-- What `set_string`, `set_integer`, `set_number` and `set_array` have set. -/
structure MpOptions where
  string : StringOption
  integer : IntegerOption
  number : NumberOption
  array : ArrayOption

/-- The options at the end of the module, where Lua has integers and 64-bit floats. -/
def MpOptions.default : MpOptions := ⟨.binary, .unsigned, .double, .without_hole⟩

/-- `packers['string_compat']`. -/
def packStringCompat (str : List UInt8) : Except MpError (List UInt8) :=
  let n := str.length
  if n ≤ 0x1F then .ok (UInt8.ofNat (0xA0 + n) :: str)
  else if n ≤ 0xFFFF then .ok (0xDA :: packU 2 n ++ str)
  else if n ≤ 0xFFFFFFFF then .ok (0xDB :: packU 4 n ++ str)
  else .error (.packOverflow "string_compat")

/-- `packers['_string']`. -/
def packString (str : List UInt8) : Except MpError (List UInt8) :=
  let n := str.length
  if n ≤ 0x1F then .ok (UInt8.ofNat (0xA0 + n) :: str)
  else if n ≤ 0xFF then .ok (0xD9 :: UInt8.ofNat n :: str)
  else if n ≤ 0xFFFF then .ok (0xDA :: packU 2 n ++ str)
  else if n ≤ 0xFFFFFFFF then .ok (0xDB :: packU 4 n ++ str)
  else .error (.packOverflow "string")

/-- `packers['binary']`. -/
def packBinary (str : List UInt8) : Except MpError (List UInt8) :=
  let n := str.length
  if n ≤ 0xFF then .ok (0xC4 :: UInt8.ofNat n :: str)
  else if n ≤ 0xFFFF then .ok (0xC5 :: packU 2 n ++ str)
  else if n ≤ 0xFFFFFFFF then .ok (0xC6 :: packU 4 n ++ str)
  else .error (.packOverflow "binary")

/-- `packers['unsigned']`. -/
def packUnsigned (n : ℤ) : List UInt8 :=
  if n ≥ 0 then
    if n ≤ 0x7F then [UInt8.ofNat n.toNat]
    else if n ≤ 0xFF then [0xCC, UInt8.ofNat n.toNat]
    else if n ≤ 0xFFFF then 0xCD :: packU 2 n.toNat
    else if n ≤ 0xFFFFFFFF then 0xCE :: packU 4 n.toNat
    else 0xCF :: packU 8 n.toNat
  else if n ≥ -0x20 then [UInt8.ofNat (0x100 + n).toNat]
  else if n ≥ -0x80 then 0xD0 :: packI 1 n
  else if n ≥ -0x8000 then 0xD1 :: packI 2 n
  else if n ≥ -0x80000000 then 0xD2 :: packI 4 n
  else 0xD3 :: packI 8 n

/-- `packers['signed']`. -/
def packSigned (n : ℤ) : List UInt8 :=
  if n ≥ 0 then
    if n ≤ 0x7F then [UInt8.ofNat n.toNat]
    else if n ≤ 0x7FFF then 0xD1 :: packI 2 n
    else if n ≤ 0x7FFFFFFF then 0xD2 :: packI 4 n
    else 0xD3 :: packI 8 n
  else if n ≥ -0x20 then [UInt8.ofNat (0xE0 + 0x20 + n).toNat]
  else if n ≥ -0x80 then 0xD0 :: packI 1 n
  else if n ≥ -0x8000 then 0xD1 :: packI 2 n
  else if n ≥ -0x80000000 then 0xD2 :: packI 4 n
  else 0xD3 :: packI 8 n

/-- `packers['string']`, after `set_string`. -/
def StringOption.pack : StringOption → List UInt8 → Except MpError (List UInt8)
  | .string_compat => packStringCompat
  | .string => packString
  | .binary => packBinary

/-- `packers['integer']`, after `set_integer`. -/
def IntegerOption.pack : IntegerOption → ℤ → List UInt8
  | .unsigned => packUnsigned
  | .signed => packSigned

/-- `packers['signed']` of a float: `char` and `pack` take it when it has the value of an integer. -/
def packSignedFloat (bits : UInt64) : Except MpError (List UInt8) :=
  match floatKey bits with
  | .integer n => .ok (packSigned n.toInt)
  | _ =>
    match doubleRat bits with
    | some q => .error (.noInteger (if -0x20 ≤ q ∧ q ≤ 0x7F then "char" else "pack"))
    | none => .error (.noInteger "pack")

/-- `packers['number']` of an integer, after `set_number`. -/
def MpOptions.packInteger (o : MpOptions) (n : ℤ) : List UInt8 :=
  match o.number with
  | .integer => packSigned n
  | .float | .double => o.integer.pack n

/-- `packers['number']` of a float. -/
def MpOptions.packFloat (narrow : UInt64 → UInt32) (o : MpOptions) (bits : UInt64) : Except MpError (List UInt8) :=
  match o.number with
  | .integer => packSignedFloat bits
  | .float => .ok (0xCA :: packU 4 (narrow bits).toNat)
  | .double => .ok (0xCB :: packU 8 bits.toNat)

/-- An entry of a table, with what the packers make of its two sides. -/
structure PackedEntry where
  key : MpValue
  keyBytes : Except MpError (List UInt8)
  valueBytes : Except MpError (List UInt8)

/-- Results one behind the other, until the first error. -/
def concatBytes : List (Except MpError (List UInt8)) → Except MpError (List UInt8)
  | [] => .ok []
  | r :: rs => r.bind fun bs => (concatBytes rs).map (bs ++ ·)

/-- `packers['map']`, for a table of `n` entries. -/
def packMap (tbl : List PackedEntry) (n : ℕ) : Except MpError (List UInt8) :=
  let entries := concatBytes (tbl.flatMap fun e => [e.keyBytes, e.valueBytes])
  if n ≤ 0x0F then entries.map (UInt8.ofNat (0x80 + n) :: ·)
  else if n ≤ 0xFFFF then entries.map (0xDE :: packU 2 n ++ ·)
  else if n ≤ 0xFFFFFFFF then entries.map (0xDF :: packU 4 n ++ ·)
  else .error (.packOverflow "map")

/-- What is appended for `tbl[i]`. -/
def packItem (tbl : List PackedEntry) (i : ℕ) : Except MpError (List UInt8) :=
  match tbl.find? fun e => e.key.rawequal (.integer (Int64.ofNat i)) with
  | some e => e.valueBytes
  | none => .ok [0xC0]

/-- `packers['array']`. -/
def packArray (tbl : List PackedEntry) (n : ℕ) : Except MpError (List UInt8) :=
  let items := concatBytes ((List.range' 1 n).map (packItem tbl)) -- for i = 1, n
  if n ≤ 0x0F then items.map (UInt8.ofNat (0x90 + n) :: ·)
  else if n ≤ 0xFFFF then items.map (0xDC :: packU 2 n ++ ·)
  else if n ≤ 0xFFFFFFFF then items.map (0xDD :: packU 4 n ++ ·)
  else .error (.packOverflow "array")

/-- `packers['array']` of a number, which need not be an integer. -/
def packArrayTo (tbl : List PackedEntry) : WithBot (WithTop ℚ) → Except MpError (List UInt8)
  | some (some q) =>
    if q.den = 1 then packArray tbl q.num.toNat
    else if q ≤ 0x0F then .error (.noInteger "char")
    else if q ≤ 0xFFFFFFFF then .error (.noInteger "pack")
    else .error (.packOverflow "array")
  | _ => .error (.packOverflow "array")

/-- The variables of the loop in `packers['_table']`. -/
structure TableScan where
  isMap : Bool
  n : ℕ
  max : WithBot (WithTop ℚ)

/-- The body of this loop. -/
def TableScan.step (t : TableScan) (k : MpValue) : TableScan :=
  match k.number with
  | some q =>
    if 0 < q then { t with max := if t.max < q then q else t.max, n := t.n + 1 }
    else { t with isMap := true, n := t.n + 1 }
  | none => { t with isMap := true, n := t.n + 1 }

/-- This loop, over the keys of a table. -/
def scanKeys (keys : List MpValue) : TableScan := keys.foldl TableScan.step ⟨false, 0, 0⟩

/-- `packers['_table']` sees an array in a table with these keys (`without_hole`). -/
def isArray (keys : List MpValue) : Bool :=
  let t := scanKeys keys
  !t.isMap && t.max == (((t.n : ℚ) : WithTop ℚ) : WithBot (WithTop ℚ))

/-- `packers['_table']`, after `set_array`. -/
def packTable (o : ArrayOption) (tbl : List PackedEntry) : Except MpError (List UInt8) :=
  match o with
  | .without_hole =>
    if isArray (tbl.map (·.key)) then packArray tbl tbl.length else packMap tbl tbl.length
  | .with_hole =>
    let t := scanKeys (tbl.map (·.key))
    if t.isMap then packMap tbl tbl.length else packArrayTo tbl t.max
  | .always_as_map => packMap tbl tbl.length

mutual

/-- `packers[type(data)]`; the buffer is what is returned. -/
def MpValue.pack (narrow : UInt64 → UInt32) (o : MpOptions) : MpValue → Except MpError (List UInt8)
  | .nil => .ok [0xC0]
  | .boolean b => .ok [if b then 0xC3 else 0xC2]
  | .integer n => .ok (o.packInteger n.toInt)
  | .float bits => o.packFloat narrow bits
  | .string s => o.string.pack s
  | .table es => packTable o.array (MpValue.packEntries narrow o es)
  | .other type => .error (.packUnimplemented type)

/-- The entries of a table, in the order of `pairs`. -/
def MpValue.packEntries (narrow : UInt64 → UInt32) (o : MpOptions) : List (MpValue × MpValue) → List PackedEntry
  | [] => []
  | (k, v) :: es => ⟨k, k.pack narrow o, v.pack narrow o⟩ :: MpValue.packEntries narrow o es

end

/-! ## Unpackers -/

/-- A program that asks for numbers of bytes. -/
abbrev Unpacker := Program ℕ (fun _ => List UInt8) (Except MpError MpValue)

/-- `types_map`. -/
inductive MpType
  | fixnum_pos | fixmap | fixarray | fixstr
  | nil | false | true
  | bin8 | bin16 | bin32
  | ext8 | ext16 | ext32
  | float | double
  | uint8 | uint16 | uint32 | uint64
  | int8 | int16 | int32 | int64
  | fixext1 | fixext2 | fixext4 | fixext8 | fixext16
  | str8 | str16 | str32
  | array16 | array32
  | map16 | map32
  | fixnum_neg
  | reserved
  deriving DecidableEq

def typesMap (k : UInt8) : MpType :=
  if k < 0x80 then .fixnum_pos
  else if k < 0x90 then .fixmap
  else if k < 0xA0 then .fixarray
  else if k < 0xC0 then .fixstr
  else if k > 0xDF then .fixnum_neg
  else match k with
    | 0xC0 => .nil
    | 0xC2 => .false
    | 0xC3 => .true
    | 0xC4 => .bin8
    | 0xC5 => .bin16
    | 0xC6 => .bin32
    | 0xC7 => .ext8
    | 0xC8 => .ext16
    | 0xC9 => .ext32
    | 0xCA => .float
    | 0xCB => .double
    | 0xCC => .uint8
    | 0xCD => .uint16
    | 0xCE => .uint32
    | 0xCF => .uint64
    | 0xD0 => .int8
    | 0xD1 => .int16
    | 0xD2 => .int32
    | 0xD3 => .int64
    | 0xD4 => .fixext1
    | 0xD5 => .fixext2
    | 0xD6 => .fixext4
    | 0xD7 => .fixext8
    | 0xD8 => .fixext16
    | 0xD9 => .str8
    | 0xDA => .str16
    | 0xDB => .str32
    | 0xDC => .array16
    | 0xDD => .array32
    | 0xDE => .map16
    | 0xDF => .map32
    | _ => .reserved

/-- An unsigned integer of `k` bytes. It wraps around behind the integers of Lua. -/
def unpackUint (k : ℕ) : Unpacker := .call k fun bs => .done (.ok (.integer (Int64.ofNat (unpackU bs))))

def unpackInt (k : ℕ) : Unpacker := .call k fun bs => .done (.ok (.integer (Int64.ofInt (unpackI bs))))

/-- A string whose length is in the first `k` bytes. -/
def unpackStr (k : ℕ) : Unpacker := .call k fun bs => .call (unpackU bs) fun s => .done (.ok (.string s))

/-- A tag and `n` bytes; `m.build_ext` returns nil. -/
def unpackFixext (n : ℕ) : Unpacker := .call 1 fun _ => .call n fun _ => .done (.ok .nil)

/-- The same, with a length in the first `k` bytes. -/
def unpackExt (k : ℕ) : Unpacker := .call k fun bs => unpackFixext (unpackU bs)

/-- `unpack_array`, from index `i` on. -/
def unpackArray (decode : Unpacker) : ℕ → ℕ → List (MpValue × MpValue) → Unpacker
  | 0, _, t => .done (.ok (.table t))
  | n + 1, i, t => decode >>= fun
    | .error e => .done (.error e)
    | .ok v => unpackArray decode n (i + 1) (rawset t (.integer (Int64.ofNat i)) v)

/-- `t[k] = val` in `unpack_map`; `m.sentinel` is nil. -/
def setEntry (t : List (MpValue × MpValue)) (k val : MpValue) : Except MpError (List (MpValue × MpValue)) :=
  match k with
  | .nil => .ok t
  | .float bits =>
    if (MpValue.float bits).number = none then .error .indexIsNaN else .ok (rawset t (floatKey bits) val)
  | k => .ok (rawset t k val)

/-- `unpack_map`. -/
def unpackMap (decode : Unpacker) : ℕ → List (MpValue × MpValue) → Unpacker
  | 0, t => .done (.ok (.table t))
  | n + 1, t => decode >>= fun
    | .error e => .done (.error e)
    | .ok k => decode >>= fun
      | .error e => .done (.error e)
      | .ok val =>
        match setEntry t k val with
        | .error e => .done (.error e)
        | .ok t => unpackMap decode n t

/-- `unpackers[type]`, behind the byte `val`. -/
def unpackers (widen : UInt32 → UInt64) (decode : Unpacker) (val : UInt8) : MpType → Unpacker
  | .fixnum_pos => .done (.ok (.integer (Int64.ofNat val.toNat)))
  | .fixmap => unpackMap decode (val &&& 0xF).toNat []
  | .fixarray => unpackArray decode (val &&& 0xF).toNat 1 []
  | .fixstr => .call (val &&& 0x1F).toNat fun s => .done (.ok (.string s))
  | .nil => .done (.ok .nil)
  | .false => .done (.ok (.boolean Bool.false))
  | .true => .done (.ok (.boolean Bool.true))
  | .bin8 | .str8 => unpackStr 1
  | .bin16 | .str16 => unpackStr 2
  | .bin32 | .str32 => unpackStr 4
  | .ext8 => unpackExt 1
  | .ext16 => unpackExt 2
  | .ext32 => unpackExt 4
  | .float => .call 4 fun bs => .done (.ok (.float (widen (UInt32.ofNat (unpackU bs)))))
  | .double => .call 8 fun bs => .done (.ok (.float (UInt64.ofNat (unpackU bs))))
  | .uint8 => unpackUint 1
  | .uint16 => unpackUint 2
  | .uint32 => unpackUint 4
  | .uint64 => unpackUint 8
  | .int8 => unpackInt 1
  | .int16 => unpackInt 2
  | .int32 => unpackInt 4
  | .int64 => unpackInt 8
  | .fixext1 => unpackFixext 1
  | .fixext2 => unpackFixext 2
  | .fixext4 => unpackFixext 4
  | .fixext8 => unpackFixext 8
  | .fixext16 => unpackFixext 16
  | .array16 => .call 2 fun bs => unpackArray decode (unpackU bs) 1 []
  | .array32 => .call 4 fun bs => unpackArray decode (unpackU bs) 1 []
  | .map16 => .call 2 fun bs => unpackMap decode (unpackU bs) []
  | .map32 => .call 4 fun bs => unpackMap decode (unpackU bs) []
  | .fixnum_neg => .done (.ok (.integer (Int64.ofInt (val.toNat - 0x100))))
  | .reserved => .done (.error (.unpackUnimplemented val))

/-- `unpackers['any']`, for values nested less than `fuel` deep. -/
def unpackAny (widen : UInt32 → UInt64) : ℕ → Unpacker
  | 0 => .done (.error .unfinished)
  | fuel + 1 => .call 1 fun bs => unpackers widen (unpackAny widen fuel) (bs.headD 0) (typesMap (bs.headD 0))

/-! ## Cursors -/

/-- A cursor. With a loader, `chunks` are the strings it will return before it returns nil. -/
structure MpCursor where
  s : List UInt8
  i : ℕ
  j : ℕ
  chunks : Option (List (List UInt8))

namespace MpCursor

/-- `cursor_string`. -/
def ofString (str : List UInt8) : MpCursor := ⟨str, 1, str.length, none⟩

/-- `cursor_loader`. -/
def ofLoader (chunks : List (List UInt8)) : MpCursor := ⟨[], 1, 0, some chunks⟩

/-- The loop in the `underflow` of a loader; false when it raises `missing bytes`. -/
def load (c : MpCursor) (e : ℕ) : List (List UInt8) → MpCursor × Bool
  | [] => ({ c with chunks := some [] }, decide (e ≤ c.j))
  | chunk :: chunks =>
    if e ≤ c.j then ({ c with chunks := some (chunk :: chunks) }, true)
    else load { c with s := c.s ++ chunk, j := (c.s ++ chunk).length } e chunks

/-- `underflow`. -/
def underflow (c : MpCursor) (e : ℕ) : MpCursor × Bool :=
  match c.chunks with
  | none => (c, false)
  | some chunks => { c with s := c.s.drop (c.i - 1), i := 1, j := 0 }.load (e - c.i + 1) chunks

/-- What every unpacker does to get `k` bytes: an underflow if they are not there, then the bytes
from `i` on. -/
def take (k : ℕ) (c : MpCursor) : Option (List UInt8 × MpCursor) :=
  let r := if c.i + k - 1 > c.j then c.underflow (c.i + k - 1) else (c, true)
  if r.2 then some ((r.1.s.drop (r.1.i - 1)).take k, { r.1 with i := r.1.i + k }) else none

end MpCursor

/-! ## `m.pack`, `m.unpack`, `m.unpacker` -/

/-- `unpackers['any'](cursor)`, with fuel for every value in `n` bytes. -/
def decodeAt (widen : UInt32 → UInt64) (n : ℕ) (c : MpCursor) : Except MpError (MpValue × MpCursor) :=
  match (unpackAny widen (n + 1)).run MpCursor.take c with
  | none => .error .missingBytes
  | some (.error e, _) => .error e
  | some (.ok v, c) => .ok (v, c)

/-- `m.pack`, with the options as they are set. -/
def mpPack (narrow : UInt64 → UInt32) (o : MpOptions) (data : MpValue) : Except MpError (List UInt8) :=
  data.pack narrow o

/-- `m.unpack`. -/
def mpUnpack (widen : UInt32 → UInt64) (s : List UInt8) : Except MpError MpValue :=
  (decodeAt widen s.length (.ofString s)).bind fun r => if r.2.i < r.2.j then .error .extraBytes else .ok r.1

/-- The values an iteration gets from a function of `m.unpacker`, and the error that ends it, if
one does. `next` is one call, `n` the calls allowed. -/
def iterate {β : Type} (next : MpCursor → Option (Except MpError (β × MpCursor))) :
    ℕ → MpCursor → List β × Option MpError
  | 0, _ => ([], some .unfinished)
  | n + 1, c =>
    match next c with
    | none => ([], none)
    | some (.error e) => ([], some e)
    | some (.ok (b, c)) => ((b :: (iterate next n c).1), (iterate next n c).2)

/-- An iteration over `m.unpacker(src)` for a string: positions and values. -/
def mpUnpackerString (widen : UInt32 → UInt64) (src : List UInt8) : List (ℕ × MpValue) × Option MpError :=
  iterate (fun c => if c.i ≤ c.j then
      some ((decodeAt widen src.length c).map fun r => ((c.i, r.1), r.2)) else none)
    (src.length + 1) (.ofString src)

/-- An iteration over `m.unpacker(src)` for a function that returns `chunks` and then nil. -/
def mpUnpackerLoader (widen : UInt32 → UInt64) (chunks : List (List UInt8)) : List MpValue × Option MpError :=
  iterate (fun c =>
      let c := if c.i > c.j then (c.underflow c.i).1 else c -- under `pcall`
      if c.i ≤ c.j then some (decodeAt widen chunks.flatten.length c) else none)
    (chunks.flatten.length + 1) (.ofLoader chunks)

end Qsf
