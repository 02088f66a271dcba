import Qsf.Spec.Bytes

/-!
# Base64 (`lualib/lua_b64.c`)

The encoder `b64_ntop` and the decoder `b64_pton` write into a buffer of cells that the
Lua functions `base64_encode` and `base64_decode` allocate and free. A write outside of the
buffer, a read of a cell that is outside or was not written, a read behind the NUL of the
source and a call of `abort` are all `Base64Stop.fault`.

`datalength` is an `int`, and so can overflow for texts of 2 GiB (`int32`); the indices of
the decoder stay below the length of the source.
-/

set_option autoImplicit false

namespace Qsf

/-- `Base64[]`. -/
def Base64 : List UInt8 :=
  (List.range' 65 26 ++ List.range' 97 26 ++ List.range' 48 10 ++ [43, 47]).map UInt8.ofNat

/-- `'='`. -/
def Pad64 : UInt8 := 61

/-- How a call ends early. -/
inductive Base64Stop
  | minusOne (target : List Cell)     -- `return (-1)`, and the target then
  | fault
  deriving DecidableEq

/-- The conversion of an `int` to a `size_t`. -/
def sizeT (x : ℤ) : ℕ := (x % 18446744073709551616).toNat

/-- `target[i]`, for reading. -/
def getByte (target : List Cell) (i : ℕ) : Except Base64Stop UInt8 :=
  match target[i]? with
  | some (some b) => .ok b
  | _ => .error .fault

/-- `target[i] = b`. -/
def putByte (target : List Cell) (i : ℕ) (b : UInt8) : Except Base64Stop (List Cell) :=
  if i < target.length then .ok (target.set i (some b)) else .error .fault

/-! ## `b64_ntop` -/

/-- `Base64[output]`, behind `Assert(output < 64)`. -/
def base64At (output : UInt8) : Except Base64Stop UInt8 :=
  match Base64[output.toNat]? with
  | some c => .ok c
  | none => .error .fault

/-- The check of the size, and `target[datalength++] = c` for each of four characters. -/
def ntopPut (targsize : ℕ) (datalength : ℤ) (target : List Cell) (cs : List UInt8) :
    Except Base64Stop (ℤ × List Cell) :=
  if targsize < sizeT (int32 (datalength + 4)) then .error (.minusOne target)
  else if 0 ≤ datalength ∧ datalength.toNat + cs.length ≤ target.length then
    .ok (int32 (datalength + cs.length), storeAt target datalength.toNat cs)
  else .error .fault

/-- The end of `b64_ntop`. The value returned does not count the NUL. -/
def ntopEnd (targsize : ℕ) (datalength : ℤ) (target : List Cell) :
    Except Base64Stop (ℤ × List Cell) :=
  if targsize ≤ sizeT datalength then .error (.minusOne target)
  else do
    let target ← putByte target datalength.toNat 0
    .ok (datalength, target)

/-- The part of `b64_ntop` behind its loop, for the `srclength < 3` bytes that are left. -/
def ntopTail (targsize : ℕ) (src : List UInt8) (datalength : ℤ) (target : List Cell) :
    Except Base64Stop (ℤ × List Cell) :=
  if src.length = 0 then ntopEnd targsize datalength target
  else do
    let input0 := src.getD 0 0
    let input1 := src.getD 1 0
    let input2 := src.getD 2 0
    let c0 ← base64At (input0 >>> 2)
    let c1 ← base64At (((input0 &&& 0x03) <<< 4) + (input1 >>> 4))
    let c2 ← base64At (((input1 &&& 0x0f) <<< 2) + (input2 >>> 6))
    let out ← ntopPut targsize datalength target
      [c0, c1, if src.length = 1 then Pad64 else c2, Pad64]
    ntopEnd targsize out.1 out.2

/-- The loop of `b64_ntop`, and what is behind it. -/
def ntopLoop (targsize : ℕ) : List UInt8 → ℤ → List Cell → Except Base64Stop (ℤ × List Cell)
  | input0 :: input1 :: input2 :: src, datalength, target => do
    let c0 ← base64At (input0 >>> 2)
    let c1 ← base64At (((input0 &&& 0x03) <<< 4) + (input1 >>> 4))
    let c2 ← base64At (((input1 &&& 0x0f) <<< 2) + (input2 >>> 6))
    let c3 ← base64At (input2 &&& 0x3f)
    let out ← ntopPut targsize datalength target [c0, c1, c2, c3]
    ntopLoop targsize src out.1 out.2
  | src, datalength, target => ntopTail targsize src datalength target

/-- `b64_ntop`: the number of characters, and the target. -/
def b64Ntop (src : List UInt8) (target : List Cell) (targsize : ℕ) :
    Except Base64Stop (ℤ × List Cell) :=
  ntopLoop targsize src 0 target

/-! ## `b64_pton` -/

/-- `strchr(Base64, ch) - Base64`, for a character that is not NUL. -/
def strchrBase64 (ch : UInt8) : Option ℕ := Base64.idxOf? ch

/-- The variables of `b64_pton`. -/
structure Pton where
  state : ℕ
  tarindex : ℕ
  target : List Cell

/-- The `switch` of the loop, for the character at `pos` of the table. -/
def ptonSwitch (targsize pos : ℕ) (s : Pton) : Except Base64Stop Pton :=
  match s.state with
  | 0 =>
    if targsize ≤ s.tarindex then .error (.minusOne s.target)
    else do
      let target ← putByte s.target s.tarindex (UInt8.ofNat (pos <<< 2))
      .ok ⟨1, s.tarindex, target⟩
  | 1 =>
    if targsize ≤ s.tarindex + 1 then .error (.minusOne s.target)
    else do
      let b ← getByte s.target s.tarindex
      let target ← putByte s.target s.tarindex (b ||| UInt8.ofNat (pos >>> 4))
      let target ← putByte target (s.tarindex + 1) (UInt8.ofNat ((pos &&& 0x0f) <<< 4))
      .ok ⟨2, s.tarindex + 1, target⟩
  | 2 =>
    if targsize ≤ s.tarindex + 1 then .error (.minusOne s.target)
    else do
      let b ← getByte s.target s.tarindex
      let target ← putByte s.target s.tarindex (b ||| UInt8.ofNat (pos >>> 2))
      let target ← putByte target (s.tarindex + 1) (UInt8.ofNat ((pos &&& 0x03) <<< 6))
      .ok ⟨3, s.tarindex + 1, target⟩
  | 3 =>
    if targsize ≤ s.tarindex then .error (.minusOne s.target)
    else do
      let b ← getByte s.target s.tarindex
      let target ← putByte s.target s.tarindex (b ||| UInt8.ofNat pos)
      .ok ⟨0, s.tarindex + 1, target⟩
  | _ => .error .fault -- abort()

/-- After the last pad, at the character `ch` with which `src` starts: nothing but whitespace
may be left, and the bits that slopped past the last full byte must be zeros. -/
def ptonTrailing (src : List UInt8) (s : Pton) : Except Base64Stop Pton :=
  match src.dropWhile isspace with
  | [] => .error .fault
  | ch :: _ =>
    if ch ≠ 0 then .error (.minusOne s.target)
    else do
      let b ← getByte s.target s.tarindex
      if b ≠ 0 then .error (.minusOne s.target) else .ok s

/-- The `switch` after a pad character; `src` is what follows it. -/
def ptonPad (src : List UInt8) (s : Pton) : Except Base64Stop Pton :=
  match src with
  | [] => .error .fault
  | ch :: src =>
    match s.state with
    | 0 | 1 => .error (.minusOne s.target)     -- Invalid = in first or second position
    | 2 =>                                     -- Valid, means one byte of info
      match (ch :: src).dropWhile isspace with
      | [] => .error .fault
      | ch :: src => if ch ≠ Pad64 then .error (.minusOne s.target) else ptonTrailing src s
    | 3 => ptonTrailing (ch :: src) s          -- Valid, means two bytes of info
    | _ => .ok s

/-- The loop of `b64_pton`, and what is behind it. -/
def ptonLoop (targsize : ℕ) : List UInt8 → Pton → Except Base64Stop Pton
  | [], _ => .error .fault
  | ch :: src, s =>
    if ch = 0 then if s.state ≠ 0 then .error (.minusOne s.target) else .ok s
    else if isspace ch then ptonLoop targsize src s -- Skip whitespace anywhere.
    else if ch = Pad64 then ptonPad src s
    else match strchrBase64 ch with
      | none => .error (.minusOne s.target) -- A non-base64 character.
      | some pos => do
        let s ← ptonSwitch targsize pos s
        ptonLoop targsize src s

/-- `b64_pton`: the number of data bytes stored at the target, and the target. -/
def b64Pton (src : List UInt8) (target : List Cell) (targsize : ℕ) :
    Except Base64Stop (ℤ × List Cell) := do
  let s ← ptonLoop targsize src ⟨0, 0, target⟩
  .ok (s.tarindex, s.target)

/-! ## The Lua functions -/

/-- `B64_CHARS`, in `size_t`. -/
def b64Chars (x : UInt64) : UInt64 := (x + 2) / 3 * 4

/-- `B64_ENCODE_LEN`. -/
def b64EncodeLen (x : UInt64) : UInt64 := b64Chars x + (b64Chars x - 1) / 76 + 1

/-- `B64_DECODE_LEN`. The `double`s are exact, and the result is an `int`, as long as `x` is
less than `2 ^ 31`. -/
def b64DecodeLen (x : ℕ) : ℕ := (x * 3 + 3) / 4

/-- A call of one of the two functions. -/
structure Base64Return where
  needlen : ℕ
  /-- The length handed to `lua_pushlstring`. -/
  len : ℕ
  /-- The string pushed; `none` when `len` reaches out of the buffer, where Lua copies what is
  behind it or raises an error. -/
  string : Option (List Cell)
  /-- `qsf_free(outbuf)` is reached. -/
  released : Bool
  deriving DecidableEq

/-- `lua_pushlstring(L, outbuf, len)`, and `qsf_free(outbuf)`. -/
def pushOutbuf (needlen : ℕ) (r : ℤ) (outbuf : List Cell) : Base64Return :=
  if sizeT r ≤ outbuf.length then ⟨needlen, sizeT r, some (outbuf.take (sizeT r)), true⟩
  else ⟨needlen, sizeT r, none, false⟩

/-- What a codec returned, and the buffer after it; `none` when it faulted. -/
def codecResult : Except Base64Stop (ℤ × List Cell) → Option (ℤ × List Cell)
  | .ok out => some out
  | .error (.minusOne target) => some (-1, target)
  | .error .fault => none

/-- `base64_encode`. -/
def base64Encode (data : List UInt8) : Option Base64Return :=
  let needlen := (b64EncodeLen (UInt64.ofNat data.length)).toNat
  (codecResult (b64Ntop data (qsfMalloc needlen) needlen)).map fun out =>
    pushOutbuf needlen out.1 out.2

/-- `base64_decode`. Lua ends the argument with a NUL. -/
def base64Decode (data : List UInt8) : Option Base64Return :=
  let needlen := b64DecodeLen data.length
  (codecResult (b64Pton (data ++ [0]) (qsfMalloc needlen) needlen)).map fun out =>
    pushOutbuf needlen out.1 out.2

end Qsf
